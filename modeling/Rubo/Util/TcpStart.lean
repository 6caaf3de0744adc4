import Rubo.Foundation.FdTable

/-!
# Opening and Closing a TcpOp

`init()` and `unit()` of `util/TcpOp.cpp`, with what they call in `util/SocketOp.cpp` and
`util/EpollOp.cpp`, over the descriptor table of the process.

Behind one failed call `unit()` is called several times over, and it leaves the numbers in
the fields. `init_server` and `init_client` may fail and `init` goes on, with the
descriptors closed or not there. `Sound` is what all this keeps: nothing is owned but what
the two fields name, and the fields name nothing of anybody else.
-/

namespace Rubo.Util

open Rubo.Foundation Rubo.Foundation.FdTable

/-- `TCP_NET_TYPE` -/
inductive TcpNetType where
  | null
  | client
  | server
  | epoll
  deriving DecidableEq

namespace SocketOp

variable (sys : System)

/-- `set_options(fd)`. The two `setsockopt` may fail. -/
def setOptions (fd : Int32) (k : FdTable) : Bool × FdTable :=
  let (gotFlags, k) := k.useFd sys fd
  if gotFlags = false then (false, k)
  else
    let (ret, k) := k.useFd sys fd
    if ret = false then (false, k)
    else
      -- `SO_SNDBUF` and `SO_REUSEADDR`
      let (_, k) := k.useFd sys fd
      let (_, k) := k.useFd sys fd
      (true, k)

/-- `set_nodelay(fd)` -/
def setNodelay (fd : Int32) (k : FdTable) : Bool × FdTable := k.useFd sys fd

/-- `create_listen(ip, port)` -/
def createListen (k : FdTable) : Int32 × FdTable :=
  let (sockFd, k) := k.openFd sys
  if sockFd < 0 then (-1, k)
  else
    let (ret, k) := setOptions sys sockFd k
    if ret = false then (-1, k.closeFd sockFd)
    else
      let (bound, k) := k.useFd sys sockFd
      if bound = false then (-1, k.closeFd sockFd)
      else
        let (listening, k) := k.useFd sys sockFd
        if listening = false then (-1, k.closeFd sockFd) else (sockFd, k)

/-- The `for` of `connect_to`, over so many addresses. -/
def connectLoop : ℕ → Int32 → FdTable → Int32 × FdTable
  | 0, sockFd, k => (sockFd, k)
  | addrs + 1, _, k =>
    let (sockFd, k) := k.openFd sys
    -- on to the next address, with `sock_fd` as it is
    if sockFd < 0 then connectLoop addrs sockFd k
    else
      let (connected, k) := k.useFd sys sockFd
      if connected = false then connectLoop addrs (-1) (k.closeFd sockFd) else (sockFd, k)

/-- `connect_to(ip, port)` -/
def connectTo (k : FdTable) : Int32 × FdTable :=
  match k.lookup sys with
  | (none, k) => (-1, k)
  | (some addrs, k) => connectLoop sys addrs 0 k

variable {k₀ k : FdTable} {own : Finset Int32}

theorem setOptions_owns (h : Owns k₀ k own) (fd : Int32) :
    Owns k₀ (setOptions sys fd k).2 own := by
  unfold setOptions
  simp only
  split_ifs
  · exact h.useFd sys fd
  · exact (h.useFd sys fd).useFd sys fd
  · exact (((h.useFd sys fd).useFd sys fd).useFd sys fd).useFd sys fd

/-- A listening socket, or nothing. -/
theorem createListen_opens (h : Owns k₀ k own) : Opens k₀ own (createListen sys k) := by
  have hopens := h.openFd sys
  unfold createListen
  generalize k.openFd sys = r at hopens ⊢
  cases hopens with
  | fails h => exact .fails h
  | opens hnot h =>
      rename_i sockFd k
      have hopt := setOptions_owns sys h sockFd
      have hbind := hopt.useFd sys sockFd
      have hlisten := hbind.useFd sys sockFd
      simp only [if_neg (h.not_neg (Finset.mem_insert_self _ _))]
      split_ifs
      · exact .fails (hopt.close_opened hnot)
      · exact .fails (hbind.close_opened hnot)
      · exact .fails (hlisten.close_opened hnot)
      · exact .opens hnot hlisten

theorem connectLoop_opens (addrs : ℕ) (h : Owns k₀ k own) :
    Opens k₀ own (connectLoop sys addrs (-1) k) := by
  induction addrs generalizing k with
  | zero => exact .fails h
  | succ addrs ih =>
      have hopens := h.openFd sys
      rw [connectLoop]
      generalize k.openFd sys = r at hopens ⊢
      cases hopens with
      | fails h => exact ih h
      | opens hnot h =>
          rename_i sockFd k
          have hconnect := h.useFd sys sockFd
          simp only [if_neg (h.not_neg (Finset.mem_insert_self _ _))]
          split_ifs
          · exact ih (hconnect.close_opened hnot)
          · exact .opens hnot hconnect

/-- A connected socket, or nothing. -/
theorem connectTo_opens (h : Owns k₀ k own) : Opens k₀ own (connectTo sys k) := by
  have hlookup := h.lookup sys
  unfold connectTo FdTable.lookup
  split_ifs
  · exact .fails hlookup
  · -- what `sock_fd` is at the beginning does not matter: there is an address
    show Opens k₀ own (connectLoop sys (sys.addrs k.calls) 0 k.tick)
    obtain ⟨addrs, haddrs⟩ := Nat.exists_eq_succ_of_ne_zero (sys.addrs_pos k.calls).ne'
    rw [haddrs]
    exact connectLoop_opens sys (addrs + 1) hlookup

end SocketOp

/-- The fields of a `TcpOp` that `init()` and `unit()` use, with the `_epoll_fd` of its
`EpollOp`. -/
structure TcpFds where
  netType : TcpNetType
  ipAddr : String
  ipPort : ℤ
  sockFd : Int32
  epollFd : Int32

namespace TcpFds

/-- The constructor, and `set_addr`. -/
def new (netType : TcpNetType) (ipAddr : String) (ipPort : ℤ) : TcpFds :=
  ⟨netType, ipAddr, ipPort, 0, 0⟩

variable (sys : System) (t : TcpFds) (k : FdTable)

/-- `EpollOp::unit()` -/
def epollUnit : FdTable := if 0 < t.epollFd then k.closeFd t.epollFd else k

/-- `EpollOp::init()` -/
def epollInit : Bool × TcpFds × FdTable :=
  let (epollFd, k) := k.openFd sys
  let t := { t with epollFd }
  if epollFd < 0 then (false, t, t.epollUnit k) else (true, t, k)

/-- `EpollOp::epoll_add(sfd)` -/
def epollAdd (sfd : Int32) : Bool × FdTable := k.watch sys t.epollFd sfd

/-- `unit()` -/
def unit : FdTable := t.epollUnit (if 0 < t.sockFd then k.closeFd t.sockFd else k)

/-- `init_server()` -/
def initServer : Bool × TcpFds × FdTable :=
  let (sockFd, k) := SocketOp.createListen sys k
  let t := { t with sockFd }
  if sockFd < 0 then (false, t, t.unit k) else (true, t, k)

/-- The `for` of `init_client`. -/
def connectTries : ℕ → TcpFds → FdTable → TcpFds × FdTable
  | 0, t, k => (t, k)
  | n + 1, t, k =>
    let (sockFd, k) := SocketOp.connectTo sys k
    let t := { t with sockFd }
    if 0 < sockFd then (t, k) else connectTries n t k

/-- `init_client()` -/
def initClient : Bool × TcpFds × FdTable :=
  -- whether one of the tries has succeeded is not asked
  let (t, k) := connectTries sys 3 t k
  let (options, k) := SocketOp.setOptions sys t.sockFd k
  if options = false then (false, t, k)
  else
    let (nodelay, k) := SocketOp.setNodelay sys t.sockFd k
    if nodelay = false then (false, t, k) else (true, t, k)

/-- The socket of `init()`. What `init_client` and `init_server` return is not looked at. -/
def openSock : TcpFds × FdTable :=
  match t.netType with
  | .client => (t.initClient sys k).2
  | .server => (t.initServer sys k).2
  | .null | .epoll => (t, k)

/-- The last step of `init()`. -/
def watchSock : Bool × TcpFds × FdTable :=
  if t.netType ≠ .epoll then
    let (added, k) := t.epollAdd sys k t.sockFd
    if added = false then (false, t, t.unit k) else (true, t, k)
  else (true, t, k)

/-- `init()` -/
def init : Bool × TcpFds × FdTable :=
  if (t.ipAddr = "" ∨ t.ipPort = 0) ∧ t.netType ≠ .epoll ∨ t.netType = .null then (false, t, k)
  else
    let (created, t, k) := t.epollInit sys k
    if created = false then (false, t, t.unit k)
    else
      let (t, k) := t.openSock sys k
      t.watchSock sys k

/-- `if(init() == false) unit();`, as callers have it one behind the other. -/
def orUnit (r : Bool × TcpFds × FdTable) : Bool × TcpFds × FdTable :=
  if r.1 = false then (false, r.2.1, r.2.1.unit r.2.2) else r

/-! ## What is owned -/

/-- Nothing is owned but what the fields name, and what they name is not of anybody else. -/
structure Sound (k₀ : FdTable) (t : TcpFds) (k : FdTable) : Prop where
  owns : ∃ own ⊆ {t.sockFd, t.epollFd}, Owns k₀ k own
  sock : t.sockFd ≠ 0 → t.sockFd ∉ k₀.fds
  epoll : t.epollFd ≠ 0 → t.epollFd ∉ k₀.fds

variable {t k} {k₀ : FdTable}

/-- **`unit()` closes what is owned**, however often it is called. -/
theorem Sound.unit_owns (h : Sound k₀ t k) : Owns k₀ (t.unit k) ∅ := by
  obtain ⟨own, hsub, howns⟩ := h.owns
  -- a number closed before is not owned, and closing it again changes nothing
  have hclosed := (howns.close_pos h.sock).close_pos h.epoll
  have hempty : (own.erase t.sockFd).erase t.epollFd = ∅ := by
    rw [Finset.eq_empty_iff_forall_notMem]
    intro fd hfd
    obtain ⟨hepoll, hfd⟩ := Finset.mem_erase.mp hfd
    obtain ⟨hsock, hfd⟩ := Finset.mem_erase.mp hfd
    have hmem := hsub hfd
    simp only [Finset.mem_insert, Finset.mem_singleton] at hmem
    exact hmem.elim hsock hepoll
  rwa [hempty] at hclosed

theorem Sound.unit (h : Sound k₀ t k) : Sound k₀ t (t.unit k) :=
  ⟨⟨∅, Finset.empty_subset _, h.unit_owns⟩, h.sock, h.epoll⟩

/-- In front of `epoll_add`: the socket is there or not. -/
structure Tried (k₀ : FdTable) (t : TcpFds) (k : FdTable) : Prop where
  owns : ∃ own ⊆ {t.sockFd, t.epollFd}, Owns k₀ k own
  sock : t.sockFd ∉ k₀.fds
  epoll : t.epollFd ∉ k₀.fds
  ne : t.sockFd ≠ t.epollFd

theorem Tried.sound (h : Tried k₀ t k) : Sound k₀ t k :=
  ⟨h.owns, fun _ => h.sock, fun _ => h.epoll⟩

/-- Calls that change nothing. -/
theorem Tried.idle {k' : FdTable} (h : Tried k₀ t k)
    (hidle : ∀ {own}, Owns k₀ k own → Owns k₀ k' own) : Tried k₀ t k' := by
  obtain ⟨own, hsub, howns⟩ := h.owns
  exact ⟨⟨own, hsub, hidle howns⟩, h.sock, h.epoll, h.ne⟩

/-- Behind `create_listen` and `connect_to`. -/
theorem tried_of_opens {sockFd : Int32} (hepoll : t.epollFd ∉ k₀.fds)
    (h : Opens k₀ {t.epollFd} (sockFd, k)) : Tried k₀ { t with sockFd } k := by
  cases h with
  | fails h =>
      refine ⟨⟨_, Finset.subset_insert _ _, h⟩, neg_one_notMem, hepoll, ?_⟩
      intro heq
      exact neg_one_notMem (heq ▸ h.own_subset (Finset.mem_singleton_self _))
  | opens hnot h =>
      refine ⟨⟨_, Finset.Subset.refl _, h⟩, h.fresh _ (Finset.mem_insert_self _ _), hepoll, ?_⟩
      exact fun heq => hnot (Finset.mem_singleton.mpr heq)

/-- A listening socket, or nothing is owned any more. -/
theorem initServer_tried (h : Owns k₀ k {t.epollFd}) :
    ∃ ret sockFd k', t.initServer sys k = (ret, { t with sockFd }, k') ∧
      Tried k₀ { t with sockFd } k' := by
  have hepoll := h.fresh _ (Finset.mem_singleton_self _)
  have hopens := SocketOp.createListen_opens sys h
  unfold initServer
  generalize SocketOp.createListen sys k = r at hopens ⊢
  obtain ⟨sockFd, k'⟩ := r
  have htried := tried_of_opens hepoll hopens
  simp only
  split_ifs
  · -- the epoll descriptor is closed too, and `init` will try to watch with it
    exact ⟨_, _, _, rfl, ⟨_, Finset.empty_subset _, htried.sound.unit_owns⟩, htried.sock,
      htried.epoll, htried.ne⟩
  · exact ⟨_, _, _, rfl, htried⟩

/-- Behind the last try a socket is connected, or none is open. -/
theorem connectTries_opens (n : ℕ) (h : Owns k₀ k {t.epollFd}) :
    ∃ sockFd k', connectTries sys (n + 1) t k = ({ t with sockFd }, k') ∧
      Opens k₀ {t.epollFd} (sockFd, k') := by
  induction n generalizing t k with
  | zero =>
      have hopens := SocketOp.connectTo_opens sys h
      rw [connectTries]
      generalize SocketOp.connectTo sys k = r at hopens ⊢
      obtain ⟨sockFd, k'⟩ := r
      exact ⟨sockFd, k', ite_self _, hopens⟩
  | succ n ih =>
      have hopens := SocketOp.connectTo_opens sys h
      rw [connectTries]
      generalize SocketOp.connectTo sys k = r at hopens ⊢
      cases hopens with
      | fails h => exact ih (t := { t with sockFd := -1 }) h
      | opens hnot h =>
          simp only [if_pos (h.pos (Finset.mem_insert_self _ _))]
          exact ⟨_, _, rfl, .opens hnot h⟩

/-- A connected socket, whatever could be set, or none. -/
theorem initClient_tried (h : Owns k₀ k {t.epollFd}) :
    ∃ ret sockFd k', t.initClient sys k = (ret, { t with sockFd }, k') ∧
      Tried k₀ { t with sockFd } k' := by
  have hepoll := h.fresh _ (Finset.mem_singleton_self _)
  obtain ⟨sockFd, k', htries, hopens⟩ := connectTries_opens sys 2 h
  have htried := tried_of_opens hepoll hopens
  have hoptions := htried.idle fun h => SocketOp.setOptions_owns sys h sockFd
  have hnodelay := hoptions.idle fun h => h.useFd sys sockFd
  unfold initClient
  simp only [htries]
  split_ifs
  · exact ⟨_, _, _, rfl, hoptions⟩
  · exact ⟨_, _, _, rfl, hnodelay⟩
  · exact ⟨_, _, _, rfl, hnodelay⟩

/-- How `init()` of a server or a client ends. -/
inductive Init (k₀ : FdTable) : Bool × TcpFds × FdTable → Prop
  /-- All is closed; `unit()` may be called again. -/
  | fails {t : TcpFds} {k : FdTable} (hsound : Sound k₀ t k) (h : Owns k₀ k ∅) :
      Init k₀ (false, t, k)
  /-- Two descriptors are open, and one watches the other. -/
  | ready {t : TcpFds} {k : FdTable} (h : Owns k₀ k {t.sockFd, t.epollFd})
      (hne : t.sockFd ≠ t.epollFd) (hwatched : (t.epollFd, t.sockFd) ∈ k.watches) :
      Init k₀ (true, t, k)

/-- `unit()` may be called behind any `init()`. -/
theorem Init.sound {r : Bool × TcpFds × FdTable} (h : Init k₀ r) : Sound k₀ r.2.1 r.2.2 := by
  cases h with
  | fails hsound h => exact hsound
  | ready h hne hwatched =>
      refine ⟨⟨_, Finset.Subset.refl _, h⟩, fun _ => ?_, fun _ => ?_⟩
      · exact h.fresh _ (Finset.mem_insert_self _ _)
      · exact h.fresh _ (Finset.mem_insert_of_mem (Finset.mem_singleton_self _))

theorem Init.orUnit {r : Bool × TcpFds × FdTable} (h : Init k₀ r) : Init k₀ (orUnit r) := by
  cases h with
  | fails hsound h => exact .fails hsound.unit hsound.unit_owns
  | ready h hne hwatched => exact .ready h hne hwatched

theorem openSock_tried (htype : t.netType = .server ∨ t.netType = .client)
    (h : Owns k₀ k {t.epollFd}) :
    ∃ sockFd k', t.openSock sys k = ({ t with sockFd }, k') ∧ Tried k₀ { t with sockFd } k' := by
  rcases htype with htype | htype
  · have hopen : t.openSock sys k = (t.initServer sys k).2 := by rw [openSock, htype]
    obtain ⟨ret, sockFd, k', hinit, htried⟩ := initServer_tried sys h
    exact ⟨sockFd, k', by rw [hopen, hinit], htried⟩
  · have hopen : t.openSock sys k = (t.initClient sys k).2 := by rw [openSock, htype]
    obtain ⟨ret, sockFd, k', hinit, htried⟩ := initClient_tried sys h
    exact ⟨sockFd, k', by rw [hopen, hinit], htried⟩

theorem Tried.watchSock (h : Tried k₀ t k) (htype : t.netType ≠ .epoll) :
    Init k₀ (t.watchSock sys k) := by
  have hidle : Tried k₀ t (t.epollAdd sys k t.sockFd).2 :=
    h.idle fun howns => howns.watch sys h.epoll t.sockFd
  unfold TcpFds.watchSock
  rw [if_pos htype]
  simp only
  split_ifs with hadded
  · exact .fails hidle.sound.unit hidle.sound.unit_owns
  · obtain ⟨hep, hsock, hwatched⟩ := mem_of_watch (Bool.eq_true_of_not_eq_false hadded)
    obtain ⟨own, hsub, howns⟩ := hidle.owns
    -- both are open, and were not there at the beginning
    have hown : own = {t.sockFd, t.epollFd} := by
      refine Finset.Subset.antisymm hsub ?_
      intro fd hfd
      simp only [Finset.mem_insert, Finset.mem_singleton] at hfd
      rcases hfd with rfl | rfl
      · exact howns.mem_own hsock h.sock
      · exact howns.mem_own hep h.epoll
    exact .ready (hown ▸ howns) h.ne hwatched

/-- How `EpollOp::init()` ends. -/
inductive Created (k₀ : FdTable) (t : TcpFds) : Bool × TcpFds × FdTable → Prop
  | fails {k : FdTable} (h : Owns k₀ k ∅) : Created k₀ t (false, { t with epollFd := -1 }, k)
  | ready {epollFd : Int32} {k : FdTable} (h : Owns k₀ k {epollFd}) :
      Created k₀ t (true, { t with epollFd }, k)

theorem epollInit_created (h : Owns k₀ k ∅) : Created k₀ t (t.epollInit sys k) := by
  have hopens := h.openFd sys
  unfold epollInit
  generalize k.openFd sys = r at hopens ⊢
  cases hopens with
  | fails h => exact .fails h
  | opens hnot h =>
      simp only [if_neg (h.not_neg (Finset.mem_insert_self _ _))]
      exact .ready h

/-- `init()` without a socket. -/
theorem init_created (htype : t.netType = .epoll) (hsock : t.sockFd = 0) (h : Owns k₀ k ∅) :
    Created k₀ t (t.init sys k) := by
  have hcreated := epollInit_created sys (t := t) h
  unfold init
  rw [if_neg (by simp [htype])]
  generalize t.epollInit sys k = r at hcreated ⊢
  cases hcreated with
  | fails h =>
      rename_i k'
      -- there is nothing to close
      have hunit : ({ t with epollFd := -1 } : TcpFds).unit k' = k' := by
        have hneg : ¬ (0 : Int32) < -1 := by decide
        simp only [TcpFds.unit, epollUnit, hsock, if_neg hneg, Int32.lt_irrefl, if_false]
      simp only [if_true, hunit]
      exact .fails h
  | ready h =>
      simp only [openSock, watchSock, htype, Bool.true_eq_false, if_false, ne_eq,
        not_true_eq_false]
      rw [← htype]
      exact .ready h

/-- **`init()` of a server or a client** opens two descriptors and says so, or leaves the
table as it was: whatever fails, and although it goes on behind an `init_server` or an
`init_client` that has failed. -/
theorem init_init (htype : t.netType = .server ∨ t.netType = .client)
    (hsock : t.sockFd = 0) (hepoll : t.epollFd = 0) (h : Owns k₀ k ∅) :
    Init k₀ (t.init sys k) := by
  have hcreated := epollInit_created sys (t := t) h
  unfold init
  generalize t.epollInit sys k = r at hcreated ⊢
  split_ifs
  · exact .fails ⟨⟨∅, Finset.empty_subset _, h⟩, fun hne => absurd hsock hne,
      fun hne => absurd hepoll hne⟩ h
  · cases hcreated with
    | fails h =>
        -- nothing is open, and `unit()` is called once more
        have hsound : Sound k₀ { t with epollFd := -1 } _ :=
          ⟨⟨∅, Finset.empty_subset _, h⟩, fun hne => absurd hsock hne, fun _ => neg_one_notMem⟩
        exact .fails hsound.unit hsound.unit_owns
    | ready h =>
        rename_i epollFd k
        obtain ⟨sockFd, k', hopen, htried⟩ :=
          openSock_tried sys (t := { t with epollFd }) htype h
        simp only [hopen]
        refine htried.watchSock sys ?_
        rcases htype with htype | htype <;> simp [htype]

end TcpFds

end Rubo.Util
