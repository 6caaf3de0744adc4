import Mathlib.Logic.Relation
import Rubo.Foundation.FdTable

/-!
# Reading the Message Definitions

`MsgCenter::init()` of `msgs/MsgCenter.cpp` imports the `.proto` files of the directory
`msgs/protocols`. `init_google_protos` calls itself for every subdirectory, but makes the
path of it without a separator: what it goes into are the directories whose names begin
like that of the directory it comes from.
-/

namespace Rubo.Msgs

open Rubo.Foundation Rubo.Foundation.FdTable

/-- A path, in bytes. -/
abbrev Path := List UInt8

/-- `d_name`: not empty, and without a separator. -/
abbrev DirName := { name : Path // name ≠ [] ∧ 47 ∉ name }

/-- The files `init()` comes across: what `readdir` gives for a directory, what `lstat`
calls a directory, and which files the importer reads. A path has fewer than 4096 bytes. -/
structure ProtoFiles where
  readDir : Path → Option (List DirName)
  isDir : Path → Bool
  importFile : Path → Path → Bool
  short : ∀ path, isDir path = true → path.length < 4096

namespace MsgCenter

variable (sys : System) (fs : ProtoFiles)

/-- The entries for the directory itself and the one above it. -/
def IsDots (name : Path) : Prop := name = [46] ∨ name = [46, 46]

instance (name : Path) : Decidable (IsDots name) := inferInstanceAs (Decidable (_ ∨ _))

/-- The name ends in `.proto`, and is not just that. -/
def IsProto (name : Path) : Prop :=
  6 < name.length ∧ name.drop (name.length - 6) = [46, 112, 114, 111, 116, 111]

instance (name : Path) : Decidable (IsProto name) := inferInstanceAs (Decidable (_ ∧ _))

/-- `full_path`, without a separator. -/
def fullPath (dirPath : Path) (name : DirName) : Path := dirPath ++ name.val

/-- A directory entered has a longer path, and no path is longer than the longest. -/
theorem length_fullPath {fs : ProtoFiles} {dirPath : Path} {name : DirName}
    (hdir : fs.isDir (fullPath dirPath name) = true) :
    dirPath.length < (fullPath dirPath name).length ∧ (fullPath dirPath name).length < 4096 := by
  have hname := List.length_pos_iff.mpr name.property.1
  refine ⟨?_, fs.short _ hdir⟩
  rw [fullPath, List.length_append]
  omega

mutual

/-- `init_google_protos(dir_path)` -/
def initGoogleProtos (dirPath : Path) (k : FdTable) : Bool × FdTable :=
  match fs.readDir dirPath with
  | none => (false, k.tick)
  | some names =>
    let (dirp, k) := k.openFd sys
    if dirp < 0 then (false, k) else readLoop dirPath dirp names k
termination_by (4096 - dirPath.length, 1, 0)

/-- The `while` of `init_google_protos`, over what `readdir` has still to give. -/
def readLoop (dirPath : Path) (dirp : Int32) (names : List DirName) (k : FdTable) :
    Bool × FdTable :=
  match names with
  | [] => (true, k.closeFd dirp)
  | name :: names =>
    if IsDots name then readLoop dirPath dirp names k
    else
      -- the file is looked for in the directory, a subdirectory is not
      if IsProto name ∧ fs.importFile dirPath name = false then (false, k.closeFd dirp)
      else if _hdir : fs.isDir (fullPath dirPath name) = true then
        let (ret, k) := initGoogleProtos (fullPath dirPath name) k
        if ret = false then (false, k.closeFd dirp) else readLoop dirPath dirp names k
      else readLoop dirPath dirp names k
termination_by (4096 - dirPath.length, 0, names.length)
decreasing_by
  · simp [Prod.lex_def]
  · have hlength := length_fullPath _hdir
    apply Prod.Lex.left
    omega
  · simp [Prod.lex_def]
  · simp [Prod.lex_def]

end

/-- `_proto_dir` -/
def protoDir : Path := "msgs/protocols".toUTF8.data.toList

/-- `init()` -/
def init (k : FdTable) : Bool × FdTable := initGoogleProtos sys fs protoDir k

/-! ## What is read -/

variable {sys fs}

/-- `init_google_protos` calls itself for the second directory. -/
def Enters (fs : ProtoFiles) (dir dir' : Path) : Prop :=
  ∃ names, fs.readDir dir = some names ∧
    ∃ name ∈ names, ¬ IsDots name ∧ fs.isDir (fullPath dir name) = true ∧ dir' = fullPath dir name

/-- The directory can be read, with all `.proto` files in it. -/
def Readable (fs : ProtoFiles) (dir : Path) : Prop :=
  ∃ names, fs.readDir dir = some names ∧
    ∀ name ∈ names, ¬ IsDots name → IsProto name → fs.importFile dir name = true

/-- So can all that it leads to. -/
def AllReadable (fs : ProtoFiles) (dir : Path) : Prop :=
  ∀ dir', Relation.ReflTransGen (Enters fs) dir dir' → Readable fs dir'

/-- What is asked of an entry. -/
def EntryOk (fs : ProtoFiles) (dir : Path) (name : DirName) : Prop :=
  ¬ IsDots name → (IsProto name → fs.importFile dir name = true) ∧
    (fs.isDir (fullPath dir name) = true → AllReadable fs (fullPath dir name))

theorem allReadable_iff {dir : Path} {names : List DirName} (hread : fs.readDir dir = some names) :
    AllReadable fs dir ↔ ∀ name ∈ names, EntryOk fs dir name := by
  constructor
  · intro hall name hname hdots
    constructor
    · obtain ⟨names', hread', hfiles⟩ := hall dir .refl
      obtain rfl : names = names' := Option.some_inj.mp (hread.symm.trans hread')
      exact hfiles name hname hdots
    · intro hdir dir' hreach
      exact hall dir' (.head ⟨names, hread, name, hname, hdots, hdir, rfl⟩ hreach)
  · intro hok dir' hreach
    rcases hreach.cases_head with rfl | ⟨sub, henters, hreach⟩
    · exact ⟨names, hread, fun name hname hdots => (hok name hname hdots).1⟩
    · obtain ⟨names', hread', name, hname, hdots, hdir, rfl⟩ := henters
      obtain rfl : names = names' := Option.some_inj.mp (hread.symm.trans hread')
      exact (hok name hname hdots).2 hdir dir' hreach

/-- A directory entered has the path of the one before, and behind it no separator. -/
theorem path_of_reach {dir dir' : Path} (h : Relation.ReflTransGen (Enters fs) dir dir') :
    ∃ rest, dir' = dir ++ rest ∧ 47 ∉ rest := by
  induction h with
  | refl => exact ⟨[], (List.append_nil _).symm, List.not_mem_nil⟩
  | tail hreach henters ih =>
      obtain ⟨rest, rfl, hrest⟩ := ih
      obtain ⟨names, hread, name, hname, hdots, hdir, rfl⟩ := henters
      refine ⟨rest ++ name, List.append_assoc _ _ _, ?_⟩
      rw [List.mem_append]
      exact fun hmem => hmem.elim hrest name.property.2

variable (sys fs)

/-- Every directory opened is closed again. -/
theorem initGoogleProtos_owns {k₀ k : FdTable} {own : Finset Int32} (dir : Path)
    (h : Owns k₀ k own) : Owns k₀ (initGoogleProtos sys fs dir k).2 own := by
  refine (initGoogleProtos.mutual_induct sys fs
    (fun dir k => ∀ {own}, Owns k₀ k own → Owns k₀ (initGoogleProtos sys fs dir k).2 own)
    (fun dir dirp names k => ∀ {own}, dirp ∉ own → Owns k₀ k (insert dirp own) →
      Owns k₀ (readLoop sys fs dir dirp names k).2 own)
    ?_ ?_ ?_ ?_ ?_ ?_ ?_ ?_ ?_).1 dir k h
  · intro dir k hread own h
    rw [initGoogleProtos, hread]
    exact h.tick
  · intro dir k names hread dirp k' hopen hneg own h
    have hopens := h.openFd sys
    simp only [initGoogleProtos, hread, hopen, if_pos hneg]
    rw [hopen] at hopens
    cases hopens with
    | fails h => exact h
    | opens hnot h => exact absurd hneg (h.not_neg (Finset.mem_insert_self _ _))
  · intro dir k names hread dirp k' hopen hneg ih own h
    have hopens := h.openFd sys
    simp only [initGoogleProtos, hread, hopen, if_neg hneg]
    rw [hopen] at hopens
    cases hopens with
    | fails h => exact absurd (by decide) hneg
    | opens hnot h => exact ih hnot h
  · intro dir dirp k own hnot h
    rw [readLoop]
    exact h.close_opened hnot
  · intro dir dirp k name names hdots ih own hnot h
    rw [readLoop, if_pos hdots]
    exact ih hnot h
  · intro dir dirp k name names hdots himport own hnot h
    rw [readLoop, if_neg hdots]
    simp only [if_pos himport]
    exact h.close_opened hnot
  · intro dir dirp k name names hdots himport hdir k' hsub ih own hnot h
    rw [readLoop, if_neg hdots]
    simp only [if_neg himport, dif_pos hdir, hsub]
    have hown := ih h
    rw [hsub] at hown
    exact hown.close_opened hnot
  · intro dir dirp k name names hdots himport hdir ret k' hsub hret ih ih' own hnot h
    rw [readLoop, if_neg hdots]
    simp only [if_neg himport, dif_pos hdir, hsub, if_neg hret]
    have hown := ih h
    rw [hsub] at hown
    exact ih' hnot hown
  · intro dir dirp k name names hdots himport hdir ih own hnot h
    rw [readLoop, if_neg hdots]
    simp only [if_neg himport, dif_neg hdir]
    exact ih hnot h

theorem init_owns {k₀ k : FdTable} {own : Finset Int32} (h : Owns k₀ k own) :
    Owns k₀ (init sys fs k).2 own := initGoogleProtos_owns sys fs protoDir h

/-- The answer says whether `P`, under a condition for one of the directions. -/
def Answers (C : Prop) (answer : Bool) (P : Prop) : Prop :=
  (answer = true → P) ∧ (C → P → answer = true)

theorem Answers.no {C P : Prop} (h : C → ¬ P) : Answers C false P :=
  ⟨fun hfalse => absurd hfalse Bool.false_ne_true, fun hC hP => absurd hP (h hC)⟩

theorem Answers.yes {C P : Prop} (h : P) : Answers C true P := ⟨fun _ => h, fun _ _ => rfl⟩

theorem Answers.congr {C C' P P' : Prop} {answer : Bool} (h : Answers C answer P) (hC : C' → C)
    (hP : P ↔ P') : Answers C' answer P' :=
  ⟨fun htrue => hP.mp (h.1 htrue), fun hC' hP' => h.2 (hC hC') (hP.mpr hP')⟩

/-- There is room for so many descriptors more. -/
def Room (k : FdTable) (n : ℕ) : Prop := 0 ∈ k.fds ∧ sys.Unfailing (k.fds.card + n)

theorem Room.of_openFd {k : FdTable} {n : ℕ} (h : Room sys k (n + 1)) :
    Room sys (k.openFd sys).2 n := by
  refine ⟨subset_openFd h.1, h.2.mono ?_⟩
  have hcard : (k.openFd sys).2.fds.card ≤ k.fds.card + 1 := card_openFd_le
  omega

/-- What `init_google_protos` answers. A path gets longer with every directory entered, so
there cannot be more of them open than it may have bytes. -/
theorem initGoogleProtos_answers (dir : Path) (k : FdTable) :
    Answers (Room sys k (4096 - dir.length + 1)) (initGoogleProtos sys fs dir k).1
      (AllReadable fs dir) := by
  refine (initGoogleProtos.mutual_induct sys fs
    (fun dir k => Answers (Room sys k (4096 - dir.length + 1))
      (initGoogleProtos sys fs dir k).1 (AllReadable fs dir))
    (fun dir dirp names k => Answers (Room sys k (4096 - dir.length))
      (readLoop sys fs dir dirp names k).1 (∀ name ∈ names, EntryOk fs dir name))
    ?_ ?_ ?_ ?_ ?_ ?_ ?_ ?_ ?_).1 dir k
  · intro dir k hread
    rw [initGoogleProtos, hread]
    refine .no fun _ hall => ?_
    obtain ⟨names, hread', hfiles⟩ := hall dir .refl
    rw [hread] at hread'
    exact Option.some_ne_none _ hread'.symm
  · intro dir k names hread dirp k' hopen hneg
    simp only [initGoogleProtos, hread, hopen, if_pos hneg]
    -- there was no number left for the directory
    refine .no fun hroom => absurd hneg ?_
    have hnot := openFd_not_neg hroom.2 (Nat.lt_add_of_pos_right (Nat.succ_pos _))
    rwa [hopen] at hnot
  · intro dir k names hread dirp k' hopen hneg ih
    simp only [initGoogleProtos, hread, hopen, if_neg hneg]
    refine ih.congr (fun hroom => ?_) (allReadable_iff hread).symm
    have hroom' := hroom.of_openFd
    rwa [hopen] at hroom'
  · intro dir dirp k
    rw [readLoop]
    exact .yes fun name hname => absurd hname List.not_mem_nil
  · intro dir dirp k name names hdots ih
    rw [readLoop, if_pos hdots]
    -- nothing is asked of the two
    refine ih.congr id ?_
    rw [List.forall_mem_cons, iff_and_self]
    exact fun _ hnot => absurd hdots hnot
  · intro dir dirp k name names hdots himport
    rw [readLoop, if_neg hdots]
    simp only [if_pos himport]
    refine .no fun _ hok => ?_
    have hread := (hok name List.mem_cons_self hdots).1 himport.1
    rw [himport.2] at hread
    exact Bool.false_ne_true hread
  · intro dir dirp k name names hdots himport hdir k' hsub ih
    rw [readLoop, if_neg hdots]
    simp only [if_neg himport, dif_pos hdir, hsub]
    rw [hsub] at ih
    -- the answer for the subdirectory is the answer for all
    refine .no fun hroom hok => ?_
    refine Bool.false_ne_true (ih.2 ?_ ((hok name List.mem_cons_self hdots).2 hdir))
    have hlength := length_fullPath hdir
    exact ⟨hroom.1, hroom.2.mono (by omega)⟩
  · intro dir dirp k name names hdots himport hdir ret k' hsub hret ih ih'
    rw [readLoop, if_neg hdots]
    simp only [if_neg himport, dif_pos hdir, hsub, if_neg hret]
    refine ih'.congr ?_ ?_
    · -- as many are open as before
      intro hroom
      have hown := (initGoogleProtos_owns sys fs (fullPath dir name) (Owns.refl hroom.1)).fds_eq
      rw [hsub] at hown
      rwa [Room, hown]
    · rw [hsub] at ih
      rw [List.forall_mem_cons, iff_and_self]
      intro _ _
      refine ⟨fun hproto => ?_, fun _ => ih.1 (Bool.eq_true_of_not_eq_false hret)⟩
      exact Bool.eq_true_of_not_eq_false fun hfalse => himport ⟨hproto, hfalse⟩
  · intro dir dirp k name names hdots himport hdir ih
    rw [readLoop, if_neg hdots]
    simp only [if_neg himport, dif_neg hdir]
    refine ih.congr id ?_
    rw [List.forall_mem_cons, iff_and_self]
    intro _ _
    refine ⟨fun hproto => ?_, fun hdir' => absurd hdir' hdir⟩
    exact Bool.eq_true_of_not_eq_false fun hfalse => himport ⟨hproto, hfalse⟩

/-- **`init()` reads what its directory leads to.** It says yes only if all directories
could be read and all `.proto` files in them imported, and always then, when no call fails
and there is room for the directories open at one time. Every directory is closed again.
None of them is below `msgs/protocols`: the paths have no separator behind that. -/
theorem protos_read (k : FdTable) (hstdin : 0 ∈ k.fds) :
    Owns k (init sys fs k).2 ∅ ∧
      ((init sys fs k).1 = true → AllReadable fs protoDir) ∧
      (sys.Unfailing (k.fds.card + 4096) → AllReadable fs protoDir →
        (init sys fs k).1 = true) ∧
      ∀ dir, Relation.ReflTransGen (Enters fs) protoDir dir →
        ∃ rest, dir = protoDir ++ rest ∧ 47 ∉ rest := by
  have hanswers := initGoogleProtos_answers sys fs protoDir k
  refine ⟨init_owns sys fs (Owns.refl hstdin), hanswers.1, ?_, ?_⟩
  · intro hsys
    have hlength : protoDir.length = 14 := by decide
    exact hanswers.2 ⟨hstdin, hsys.mono (by omega)⟩
  · exact fun dir => path_of_reach

/-- A kernel that gives out two descriptors behind the first three. -/
def twoMore : System where
  fails _ := false
  fresh s := if 3 ∉ s then some 3 else if 4 ∉ s then some 4 else none
  addrs _ := 1
  nonneg s fd h := by
    split_ifs at h
    all_goals
      obtain rfl := Option.some_inj.mp h
      decide
  notMem s fd h := by
    by_cases h3 : 3 ∈ s
    · by_cases h4 : 4 ∈ s
      · simp [h3, h4] at h
      · simp only [h3, h4, not_true_eq_false, not_false_eq_true, if_true, if_false] at h
        exact Option.some_inj.mp h ▸ h4
    · simp only [h3, not_false_eq_true, if_true] at h
      exact Option.some_inj.mp h ▸ h3
  addrs_pos _ := Nat.one_pos

/-- Standard input and the two outputs. -/
def console : FdTable where
  fds := {0, 1, 2}
  watches := ∅
  calls := 0
  nonneg fd hfd := by
    simp only [Finset.mem_insert, Finset.mem_singleton] at hfd
    rcases hfd with rfl | rfl | rfl
    all_goals decide

/-- `login.proto` -/
def loginProto : DirName := ⟨[108, 111, 103, 105, 110, 46, 112, 114, 111, 116, 111], by decide⟩

/-- `login.proto`, and beside `msgs/protocols` a directory `msgs/protocols2` with a file
that cannot be imported. An entry `2` of the first leads to the second. -/
def withSibling : ProtoFiles where
  readDir path :=
    if path = protoDir then
      some [⟨[46], by decide⟩, ⟨[46, 46], by decide⟩, loginProto, ⟨[50], by decide⟩]
    else if path = protoDir ++ [50] then
      some [⟨[97, 46, 112, 114, 111, 116, 111], by decide⟩]
    else none
  isDir path := decide (path = protoDir ++ [50])
  importFile dir _ := decide (dir = protoDir)
  short path h := by
    rw [of_decide_eq_true h]
    decide

theorem protos_read_sibling :
    0 ∈ console.fds ∧ (init twoMore withSibling console).1 = false ∧
      (init twoMore withSibling console).2.fds = {0, 1, 2} := by
  obtain ⟨howns, htrue, -, -⟩ := protos_read twoMore withSibling console (by decide)
  refine ⟨by decide, Bool.eq_false_iff.mpr fun hinit => ?_, howns.fds_eq⟩
  -- the entry `2` leads to the sibling
  have henters : Enters withSibling protoDir (protoDir ++ [50]) :=
    ⟨_, rfl, ⟨[50], by decide⟩, by decide, by decide, by decide, rfl⟩
  obtain ⟨names, hread, hfiles⟩ := htrue hinit _ (.single henters)
  have hnames : withSibling.readDir (protoDir ++ [50]) =
      some [⟨[97, 46, 112, 114, 111, 116, 111], by decide⟩] := by decide
  rw [hnames] at hread
  have hfile := hfiles ⟨[97, 46, 112, 114, 111, 116, 111], by decide⟩
    (Option.some_inj.mp hread ▸ List.mem_cons_self) (by decide) (by decide)
  exact absurd hfile (by decide)

end MsgCenter

end Rubo.Msgs
