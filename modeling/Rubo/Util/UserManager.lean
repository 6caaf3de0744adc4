import Rubo.Foundation.Heap
import Rubo.Foundation.Machine
import Rubo.Foundation.Table
import Rubo.Util.SocketNode

/-!
# UserManager

The two indexes of `util/UserManager.cpp`: users by uid and users by socket
descriptor. A user is a shared object, so both tables hold pointers.

- `add_user` and `add_conn` test and fill the two tables independently of each
  other;
- `del_conn` and `del_user` erase in the second table by key, whoever is stored
  there.

The two tables therefore agree exactly as long as every addition fills both of
them or neither (`indexesAgree_iff_along`).
-/

namespace Rubo.Util

open Rubo.Foundation

/-- The fields of a `UserManager`. -/
structure UserManager where
  uidUsers : Table Int32 Ptr
  sockUsers : Table Int32 Ptr

namespace UserManager

variable (heap : Heap User) (um : UserManager)

def new : UserManager := ⟨.empty, .empty⟩

/-! ## Operations -/

/-- The `_uid_users` part of an addition. -/
def addUid (user : Ptr) : UserManager :=
  let uid := (heap.obj user).uid
  -- an entry that is there is kept
  if um.uidUsers.find uid = none ∧ uid > 0 then
    { um with uidUsers := um.uidUsers.set uid user }
  else
    um

/-- The `_sock_users` part of an addition. -/
def addSock (user : Ptr) : UserManager :=
  let sfd := (heap.obj user).node.sfd
  if um.sockUsers.find sfd = none ∧ sfd > 0 then
    { um with sockUsers := um.sockUsers.set sfd user }
  else
    um

/-- `add_user(user)`; it always returns `true`. -/
def addUser (user : Ptr) : UserManager :=
  let um := um.addUid heap user
  match (heap.obj user).sock with
  | none => um
  | some _ => um.addSock heap user

/-- `add_conn(user)`; it always returns `true`. -/
def addConn (user : Ptr) : UserManager :=
  (um.addSock heap user).addUid heap user

/-- `del_conn(sfd)` -/
def delConn (sfd : Int32) : UserManager :=
  match um.sockUsers.find sfd with
  | none => um
  | some user =>
    -- the entry under the uid is erased whoever it is
    { sockUsers := um.sockUsers.erase sfd
      uidUsers := um.uidUsers.erase (heap.obj user).uid }

/-- `del_user(uid)`; it always returns `true`. -/
def delUser (uid : Int32) : UserManager :=
  match um.uidUsers.find uid with
  | none => um
  | some user =>
    let um := { um with uidUsers := um.uidUsers.erase uid }
    match (heap.obj user).sock with
    | none => um
    -- and so is the entry under the descriptor
    | some sock => { um with sockUsers := um.sockUsers.erase sock.sfd }

/-- `get_user_by_sock(sock_fd)` -/
def getUserBySock (sockFd : Int32) : Option Ptr := um.sockUsers.find sockFd

/-- `get_user_by_uid(uid)` -/
def getUserByUid (uid : Int32) : Option Ptr := um.uidUsers.find uid

/-! ## Sequences of calls -/

/-- A call that changes the tables. -/
inductive Call where
  | addUser (user : Ptr)
  | addConn (user : Ptr)
  | delUser (uid : Int32)
  | delConn (sfd : Int32)
  deriving DecidableEq, Repr

/-- One call. The users themselves do not change. -/
def call : Call → UserManager
  | .addUser user => um.addUser heap user
  | .addConn user => um.addConn heap user
  | .delUser uid => um.delUser heap uid
  | .delConn sfd => um.delConn heap sfd

/-- Every entry is stored under the key its user carries, and keys are positive. -/
structure Keyed : Prop where
  uid_key : ∀ {u p}, um.uidUsers.find u = some p → (heap.obj p).uid = u ∧ 0 < u
  sock_key : ∀ {fd p}, um.sockUsers.find fd = some p → (heap.obj p).node.sfd = fd ∧ 0 < fd

/-- The two indexes agree: a connected user with a positive uid is found under
its uid, and a user found under a uid is found under its descriptor. -/
structure IndexesAgree : Prop where
  uid_of_sock : ∀ {fd p}, um.sockUsers.find fd = some p → 0 < (heap.obj p).uid →
    um.uidUsers.find (heap.obj p).uid = some p
  sock_of_uid : ∀ {u p}, um.uidUsers.find u = some p →
    um.sockUsers.find (heap.obj p).node.sfd = some p

/-- The user a deletion is about. -/
def target : Call → Option Ptr
  | .delUser uid => um.uidUsers.find uid
  | .delConn sfd => um.sockUsers.find sfd
  | _ => none

/-- A call leaves every user it does not delete reachable as it was. -/
def CallsKeepOthers : Prop :=
  ∀ (c : Call) (p : Ptr), um.target c ≠ some p →
    (um.sockUsers.find (heap.obj p).node.sfd = some p →
      (um.call heap c).sockUsers.find (heap.obj p).node.sfd = some p) ∧
    (um.uidUsers.find (heap.obj p).uid = some p →
      (um.call heap c).uidUsers.find (heap.obj p).uid = some p)

/-- An addition of a user with a positive uid finds its uid free exactly when it
finds its descriptor valid and free. -/
def AddsWhole : Call → Prop
  | .addUser p | .addConn p =>
    0 < (heap.obj p).uid → (um.uidUsers.find (heap.obj p).uid = none ↔
      um.sockUsers.find (heap.obj p).node.sfd = none ∧ 0 < (heap.obj p).node.sfd)
  | _ => True

variable {heap um}

/-! ## What each operation does to each table -/

@[simp] theorem sockUsers_addUid (p : Ptr) : (um.addUid heap p).sockUsers = um.sockUsers := by
  simp only [addUid]
  split_ifs <;> rfl

@[simp] theorem uidUsers_addSock (p : Ptr) : (um.addSock heap p).uidUsers = um.uidUsers := by
  simp only [addSock]
  split_ifs <;> rfl

theorem find_uidUsers_addUid (p : Ptr) (u : Int32) :
    (um.addUid heap p).uidUsers.find u =
      if u = (heap.obj p).uid ∧ um.uidUsers.find (heap.obj p).uid = none ∧ 0 < (heap.obj p).uid
      then some p else um.uidUsers.find u := by
  unfold addUid
  simp only [gt_iff_lt]
  split_ifs with hfree h h
  · -- `u` is the key just filled
    rw [h.1, Table.find_set_self]
  · -- another key is looked up
    rw [Table.find_set, if_neg fun hu => h ⟨hu, hfree⟩]
  · -- the key was taken, or is not a key
    exact absurd h.2 hfree
  · rfl

theorem find_sockUsers_addSock (p : Ptr) (fd : Int32) :
    (um.addSock heap p).sockUsers.find fd =
      if fd = (heap.obj p).node.sfd ∧ um.sockUsers.find (heap.obj p).node.sfd = none ∧
        0 < (heap.obj p).node.sfd
      then some p else um.sockUsers.find fd := by
  unfold addSock
  simp only [gt_iff_lt]
  split_ifs with hfree h h
  · -- `fd` is the key just filled
    rw [h.1, Table.find_set_self]
  · -- another key is looked up
    rw [Table.find_set, if_neg fun hfd => h ⟨hfd, hfree⟩]
  · -- the key was taken, or is not a key
    exact absurd h.2 hfree
  · rfl

/-- Without a socket there is no descriptor to store. -/
theorem addSock_of_sock_none {p : Ptr} (h : (heap.obj p).sock = none) :
    um.addSock heap p = um := by
  have hsfd : (heap.obj p).node.sfd = 0 := by rw [User.node, h]; rfl
  unfold addSock
  rw [hsfd, if_neg fun hfree => absurd hfree.2 (by decide)]

/-- Both additions fill both tables; they differ in the order only. -/
theorem addUser_eq (p : Ptr) : um.addUser heap p = (um.addUid heap p).addSock heap p := by
  unfold addUser
  cases h : (heap.obj p).sock with
  | none => exact (addSock_of_sock_none h).symm
  | some sock => rfl

theorem addConn_eq_addUser (p : Ptr) : um.addConn heap p = um.addUser heap p := by
  rw [addUser_eq, addConn]
  -- each part reads a table the other one leaves alone
  unfold addUid addSock
  simp only
  split_ifs <;> rfl

/-- Deleting `q` from both tables. -/
def remove (heap : Heap User) (um : UserManager) (q : Ptr) : UserManager where
  uidUsers := um.uidUsers.erase (heap.obj q).uid
  sockUsers := um.sockUsers.erase (heap.obj q).node.sfd

theorem delConn_eq_remove (hk : Keyed heap um) {fd : Int32} {q : Ptr}
    (hq : um.sockUsers.find fd = some q) : um.delConn heap fd = remove heap um q := by
  simp only [delConn, hq, remove, (hk.sock_key hq).1]

/-- While the tables agree, `del_user` deletes from both as well. -/
theorem delUser_eq_remove (hk : Keyed heap um) (ha : IndexesAgree heap um) {u : Int32} {q : Ptr}
    (hq : um.uidUsers.find u = some q) : um.delUser heap u = remove heap um q := by
  have hsock := ha.sock_of_uid hq
  cases h : (heap.obj q).sock with
  | none =>
      -- a user found by descriptor has a positive one, so it has a socket
      have hzero : (heap.obj q).node.sfd = 0 := by rw [User.node, h]; rfl
      rw [hzero] at hsock
      exact absurd (hk.sock_key hsock).2 (by decide)
  | some sock =>
      have hnode : (heap.obj q).node = sock := by rw [User.node, h]; rfl
      simp only [delUser, hq, h, remove, hnode, (hk.uid_key hq).1]

/-! ## Invariants -/

theorem keyed_new : Keyed heap new := ⟨nofun, nofun⟩

theorem indexesAgree_new : IndexesAgree heap new := ⟨nofun, nofun⟩

theorem keyed_addUid (hk : Keyed heap um) (p : Ptr) : Keyed heap (um.addUid heap p) := by
  constructor
  · intro u q hq
    rw [find_uidUsers_addUid] at hq
    split_ifs at hq with h
    · -- the new entry
      cases hq
      exact ⟨h.1.symm, h.1 ▸ h.2.2⟩
    · exact hk.uid_key hq
  · intro fd q hq
    rw [sockUsers_addUid] at hq
    exact hk.sock_key hq

theorem keyed_addSock (hk : Keyed heap um) (p : Ptr) : Keyed heap (um.addSock heap p) := by
  constructor
  · intro u q hq
    rw [uidUsers_addSock] at hq
    exact hk.uid_key hq
  · intro fd q hq
    rw [find_sockUsers_addSock] at hq
    split_ifs at hq with h
    · -- the new entry
      cases hq
      exact ⟨h.1.symm, h.1 ▸ h.2.2⟩
    · exact hk.sock_key hq

/-- Erasing entries keeps the rest keyed. -/
theorem Keyed.mono {um' : UserManager} (hk : Keyed heap um)
    (huid : ∀ {u p}, um'.uidUsers.find u = some p → um.uidUsers.find u = some p)
    (hsock : ∀ {fd p}, um'.sockUsers.find fd = some p → um.sockUsers.find fd = some p) :
    Keyed heap um' :=
  ⟨fun h => hk.uid_key (huid h), fun h => hk.sock_key (hsock h)⟩

theorem keyed_delConn (hk : Keyed heap um) (fd : Int32) : Keyed heap (um.delConn heap fd) := by
  unfold delConn
  split
  · exact hk
  · apply hk.mono
    · intro u p h
      exact (Table.find_erase_eq_some.mp h).2
    · intro fd' p h
      exact (Table.find_erase_eq_some.mp h).2

theorem keyed_delUser (hk : Keyed heap um) (u : Int32) : Keyed heap (um.delUser heap u) := by
  unfold delUser
  split
  · exact hk
  · simp only
    split
    · -- no socket: one table changes
      apply hk.mono
      · intro u' p h
        exact (Table.find_erase_eq_some.mp h).2
      · intro fd p h
        exact h
    · -- both tables lose an entry
      apply hk.mono
      · intro u' p h
        exact (Table.find_erase_eq_some.mp h).2
      · intro fd p h
        exact (Table.find_erase_eq_some.mp h).2

theorem keyed_call (hk : Keyed heap um) (c : Call) : Keyed heap (um.call heap c) := by
  cases c with
  | addUser p =>
      show Keyed heap (um.addUser heap p)
      rw [addUser_eq]
      exact keyed_addSock (keyed_addUid hk p) p
  | addConn p => exact keyed_addUid (keyed_addSock hk p) p
  | delUser u => exact keyed_delUser hk u
  | delConn fd => exact keyed_delConn hk fd

/-- Deleting a user from both tables keeps them in agreement. -/
theorem indexesAgree_remove (hk : Keyed heap um) (ha : IndexesAgree heap um) {q : Ptr}
    (hq : um.sockUsers.find (heap.obj q).node.sfd = some q) : IndexesAgree heap (remove heap um q) := by
  constructor
  · intro fd p hp hpos
    obtain ⟨hne, hp⟩ := Table.find_erase_eq_some.mp hp
    have hfd := (hk.sock_key hp).1
    have hu := ha.uid_of_sock hp hpos
    apply Table.find_erase_eq_some.mpr
    refine ⟨fun heq => hne ?_, hu⟩
    -- the same positive uid would make `p` and `q` one user
    have hqu := ha.uid_of_sock hq (heq ▸ hpos)
    rw [← heq, hu] at hqu
    rw [← hfd, Option.some.inj hqu]
  · intro u p hp
    obtain ⟨hne, hp⟩ := Table.find_erase_eq_some.mp hp
    have hu := (hk.uid_key hp).1
    have hs := ha.sock_of_uid hp
    apply Table.find_erase_eq_some.mpr
    refine ⟨fun heq => hne ?_, hs⟩
    -- nor can `p` share the descriptor of `q`
    rw [heq, hq] at hs
    rw [← hu, ← Option.some.inj hs]

/-- The tables agree after an addition exactly when it was a whole one. -/
theorem indexesAgree_addUser_iff (ha : IndexesAgree heap um) (p : Ptr) :
    IndexesAgree heap (um.addUser heap p) ↔ um.AddsWhole heap (.addUser p) := by
  have huid : ∀ u, (um.addUid heap p).uidUsers.find u = _ := find_uidUsers_addUid p
  have hsock : ∀ fd, (um.addUser heap p).sockUsers.find fd =
      if fd = (heap.obj p).node.sfd ∧ um.sockUsers.find (heap.obj p).node.sfd = none ∧
        0 < (heap.obj p).node.sfd
      then some p else um.sockUsers.find fd := by
    intro fd
    rw [addUser_eq, find_sockUsers_addSock, sockUsers_addUid]
  have huid' : (um.addUser heap p).uidUsers = (um.addUid heap p).uidUsers := by
    rw [addUser_eq, uidUsers_addSock]
  constructor
  · intro ha' hpos
    constructor
    · -- its uid was free
      intro hfree
      -- `p` is now stored under its uid, so it has to be stored under its descriptor
      have hin : (um.addUser heap p).uidUsers.find (heap.obj p).uid = some p := by
        rw [huid', huid, if_pos ⟨rfl, hfree, hpos⟩]
      have hp := ha'.sock_of_uid hin
      rw [hsock] at hp
      split_ifs at hp with h
      · exact h.2
      · -- stored there before, it had an entry under its uid already
        have := ha.uid_of_sock hp hpos
        rw [hfree] at this
        cases this
    · -- its descriptor was free
      intro hfree
      have hin : (um.addUser heap p).sockUsers.find (heap.obj p).node.sfd = some p := by
        rw [hsock, if_pos ⟨rfl, hfree⟩]
      have hp := ha'.uid_of_sock hin hpos
      rw [huid', huid] at hp
      split_ifs at hp with h
      · exact h.2.1
      · have := ha.sock_of_uid hp
        rw [hfree.1] at this
        cases this
  · intro hw
    constructor
    · intro fd q hq hpos
      rw [hsock] at hq
      rw [huid', huid]
      split_ifs at hq with h
      · -- `p` itself: its uid was free as well
        cases hq
        rw [if_pos ⟨rfl, (hw hpos).mpr h.2, hpos⟩]
      · -- an earlier entry is not displaced
        have hq' := ha.uid_of_sock hq hpos
        rw [if_neg, hq']
        rintro ⟨hu, hfree, _⟩
        rw [hu, hfree] at hq'
        cases hq'
    · intro u q hq
      rw [huid', huid] at hq
      rw [hsock]
      split_ifs at hq with h
      · -- `p` itself: its descriptor was free as well
        cases hq
        rw [if_pos ⟨rfl, (hw h.2.2).mp h.2.1⟩]
      · -- an earlier entry is not displaced
        have hq' := ha.sock_of_uid hq
        rw [if_neg, hq']
        rintro ⟨hfd, hfree, _⟩
        rw [hfd, hfree] at hq'
        cases hq'

/-- One call from agreeing tables. -/
theorem indexesAgree_call_iff (hk : Keyed heap um) (ha : IndexesAgree heap um) (c : Call) :
    IndexesAgree heap (um.call heap c) ↔ um.AddsWhole heap c := by
  cases c with
  | addUser p => exact indexesAgree_addUser_iff ha p
  | addConn p =>
      show IndexesAgree heap (um.addConn heap p) ↔ _
      rw [addConn_eq_addUser]
      exact indexesAgree_addUser_iff ha p
  | delUser u =>
      refine iff_of_true ?_ trivial
      show IndexesAgree heap (um.delUser heap u)
      cases hq : um.uidUsers.find u with
      | none => rwa [delUser, hq]
      | some q =>
          rw [delUser_eq_remove hk ha hq]
          exact indexesAgree_remove hk ha (ha.sock_of_uid hq)
  | delConn fd =>
      refine iff_of_true ?_ trivial
      show IndexesAgree heap (um.delConn heap fd)
      cases hq : um.sockUsers.find fd with
      | none => rwa [delConn, hq]
      | some q =>
          rw [delConn_eq_remove hk hq]
          exact indexesAgree_remove hk ha ((hk.sock_key hq).1.symm ▸ hq)

/-- An entry of the tables survives an addition: additions never overwrite. -/
theorem find_addUser_of_find {p : Ptr} :
    (∀ {u q}, um.uidUsers.find u = some q → (um.addUser heap p).uidUsers.find u = some q) ∧
    (∀ {fd q}, um.sockUsers.find fd = some q →
      (um.addUser heap p).sockUsers.find fd = some q) := by
  rw [addUser_eq]
  constructor
  · intro u q hq
    rw [uidUsers_addSock, find_uidUsers_addUid, if_neg, hq]
    rintro ⟨rfl, hfree, _⟩
    rw [hfree] at hq
    cases hq
  · intro fd q hq
    rw [find_sockUsers_addSock, sockUsers_addUid, if_neg, hq]
    rintro ⟨rfl, hfree, _⟩
    rw [hfree] at hq
    cases hq

/-- Deleting `q` from agreeing tables keeps every other user. -/
theorem find_remove_of_find (hk : Keyed heap um) (ha : IndexesAgree heap um) {p q : Ptr}
    (hq : um.sockUsers.find (heap.obj q).node.sfd = some q) (hne : q ≠ p) :
    (um.sockUsers.find (heap.obj p).node.sfd = some p →
      (remove heap um q).sockUsers.find (heap.obj p).node.sfd = some p) ∧
    (um.uidUsers.find (heap.obj p).uid = some p →
      (remove heap um q).uidUsers.find (heap.obj p).uid = some p) := by
  constructor
  · intro hp
    refine Table.find_erase_eq_some.mpr ⟨fun heq => ?_, hp⟩
    -- `p` is not the user found under that descriptor
    rw [heq, hq] at hp
    exact hne (Option.some.inj hp)
  · intro hp
    refine Table.find_erase_eq_some.mpr ⟨fun heq => ?_, hp⟩
    -- a shared uid would make them one user
    have hpos := (hk.uid_key hp).2
    have hqu := ha.uid_of_sock hq (heq ▸ hpos)
    rw [← heq, hp] at hqu
    exact hne (Option.some.inj hqu).symm

theorem callsKeepOthers_of_indexesAgree (hk : Keyed heap um) (ha : IndexesAgree heap um) :
    um.CallsKeepOthers heap := by
  intro c p htarget
  cases c with
  | addUser q => exact ⟨find_addUser_of_find.2, find_addUser_of_find.1⟩
  | addConn q =>
      show _ ∧ (_ → (um.addConn heap q).uidUsers.find _ = _)
      rw [call, addConn_eq_addUser]
      exact ⟨find_addUser_of_find.2, find_addUser_of_find.1⟩
  | delUser u =>
      rw [call]
      cases hq : um.uidUsers.find u with
      | none => rw [delUser, hq]; exact ⟨id, id⟩
      | some q =>
          rw [delUser_eq_remove hk ha hq]
          apply find_remove_of_find hk ha (ha.sock_of_uid hq)
          rintro rfl
          exact htarget hq
  | delConn fd =>
      rw [call]
      cases hq : um.sockUsers.find fd with
      | none => rw [delConn, hq]; exact ⟨id, id⟩
      | some q =>
          rw [delConn_eq_remove hk hq]
          apply find_remove_of_find hk ha ((hk.sock_key hq).1.symm ▸ hq)
          rintro rfl
          exact htarget hq

/-! ## Every sequence of calls -/

/-- **Exactly the whole additions keep the indexes in agreement.** In every
sequence of calls on a new manager, the two indexes agree in every state, and so
no call ever makes a user it is not about unreachable, if and only if every
addition of a user with a positive uid finds both its keys free or neither. -/
theorem indexesAgree_iff_along (heap : Heap User) (calls : List Call) :
    (∀ js, js <+: calls →
      IndexesAgree heap (run (call heap) new js) ∧ CallsKeepOthers heap (run (call heap) new js)) ↔
    Along (call heap) (AddsWhole heap) new calls := by
  have hstep : ∀ um c, (Keyed heap um ∧ IndexesAgree heap um) →
      ((Keyed heap (call heap um c) ∧ IndexesAgree heap (call heap um c)) ↔
        AddsWhole heap um c) := by
    rintro um c ⟨hk, ha⟩
    rw [indexesAgree_call_iff hk ha]
    exact and_iff_right (keyed_call hk c)
  rw [← always_iff_along hstep ⟨keyed_new, indexesAgree_new⟩ calls]
  -- keys are right in every state, agreement or not
  have hkeyed : ∀ js, Keyed heap (run (call heap) new js) :=
    run_invariant (I := Keyed heap) (fun _ c hk => keyed_call hk c) keyed_new
  constructor
  · intro h js hjs
    exact ⟨hkeyed js, (h js hjs).1⟩
  · intro h js hjs
    obtain ⟨hk, ha⟩ := h js hjs
    exact ⟨ha, callsKeepOthers_of_indexesAgree hk ha⟩

/-- Two users of a heap: uid 1 on descriptor 5 and uid 1 again on descriptor 6. -/
def twoLogins : Heap User where
  next := 2
  obj := fun p => { uid := 1, sock := some { sfd := if p = 0 then 5 else 6 } }

/-- The indexes do not agree in general: after a second login of a uid the new
connection is missing under the uid, and when it closes, the first connection,
still open, is no longer found under its uid either. -/
theorem not_indexesAgree_twoLogins :
    ¬ (∀ (heap : Heap User) (calls : List Call), (∀ p, (heap.obj p).sock ≠ none) →
      IndexesAgree heap (run (call heap) new calls)) ∧
    ¬ CallsKeepOthers twoLogins (run (call twoLogins) new [.addConn 0, .addConn 1]) := by
  constructor
  · intro h
    have hagree := h twoLogins [.addConn 0, .addConn 1] (fun p => nofun)
    have hsock : (run (call twoLogins) new [.addConn 0, .addConn 1]).sockUsers.find 6 = some 1 := by
      decide
    have huid := hagree.uid_of_sock hsock (by decide)
    revert huid
    decide
  · intro h
    have hkeep := (h (.delConn 6) 0 (by decide)).2 (by decide)
    revert hkeep
    decide

end UserManager

end Rubo.Util
