import ItcPlatform.Lib.FileTree

/-! `FileSystem::createPath`. -/

namespace ItcPlatform.FileSystem
open FileTree

inductive PathType
  | undefined
  | regularFile
  | directory
  deriving DecidableEq

inductive FileSystemIfReturnCode
  | itcFilesystemUndefined
  | itcFilesystemOk
  | itcFilesystemSyscallError
  | itcFilesystemInvalidArguments
  | itcFilesystemExceptionThrown
  deriving DecidableEq

def parentPath (path : Path String) : Path String :=
  if path = [.rootDirectory] then path else path.dropLast

def PathType.dirPath (path : Path String) : PathType → Option (Path String)
  | .directory => some path
  | .regularFile => some (parentPath path)
  | .undefined => none

def directoryPerms (umask : Perms) : Perms := 0x1ff &&& ~~~umask

section
variable (umask : Perms) (t : FileTree String) (path : Path String)

def isRegularFile : Bool := ((t.status path).map Node.kind).any Kind.isRegularFile

/-- The file is opened, and so emptied, where it is there already: it is the path that is asked and
not the type. -/
def openFile : FileTree String := if isRegularFile t path then t.truncate path else t

def grant (pos : ℕ) (mode : Perms) (t : FileTree String) (subPath : Path String) (i : ℕ) :
    Path String → FileTree String × Bool
  | [] => (t, true)
  | component :: components =>
    let subPath := subPath ++ [component]
    if pos ≤ i then
      match t.permissions subPath mode with
      | none => (t, false)
      | some t => grant pos mode t subPath (i + 1) components
    else grant pos mode t subPath (i + 1) components

def createPath (type : PathType) (pos : ℕ) (mode : Perms) :
    FileTree String × FileSystemIfReturnCode :=
  if (t.status path).isSome then (t, .itcFilesystemOk)
  else
    match type.dirPath path with
    | none => (t, .itcFilesystemInvalidArguments)
    | some dirPath =>
      match t.createDirectories (directoryPerms umask) dirPath with
      | (t, false) => (t, .itcFilesystemSyscallError)
      | (t, true) =>
        match grant pos mode (openFile t path) [] 0 path with
        | (t, false) => (t, .itcFilesystemSyscallError)
        | (t, true) => (t, .itcFilesystemOk)

end

def PathType.Matches (kind : Kind) : PathType → Prop
  | .undefined => False
  | .regularFile => kind.isRegularFile = true
  | .directory => kind = .directory

def ExistsAs (t : FileTree String) (path : Path String) (type : PathType) : Prop :=
  ∃ n, t.status path = some n ∧ type.Matches n.kind

/-- What `createPath` promises, from the tree before and the result. -/
structure Created (t : FileTree String) (path : Path String) (type : PathType) (pos : ℕ)
    (mode : Perms) (result : FileTree String × FileSystemIfReturnCode) : Prop where
  ok : result.2 = .itcFilesystemOk
  target : ExistsAs result.1 path type
  parents : ∀ q, q <+: path → q ≠ [] → q ≠ path →
    (result.1.status q).map Node.kind = some .directory
  frame : ∀ l, (∀ q, q <+: path → q ≠ [] → t.locate q ≠ l) → result.1.node l = t.node l
  perms : ∀ q, q <+: path → pos < q.length → t.status q = none →
    (result.1.status q).map Node.perms = some mode

/-- A missing path that comes about: where its components lead there is nothing or a directory, or
at its end, where a file is asked for, a file. -/
def Creatable (t : FileTree String) (path : Path String) : PathType → Prop
  | .undefined => False
  | .regularFile =>
    (∀ q, q <+: path → q ≠ path → ∀ k ∈ t.kind (t.locate q), k = .directory) ∧
      ∃ k ∈ t.kind (t.locate path), k.isRegularFile = true
  | .directory => path ≠ [] ∧ ∀ q, q <+: path → ∀ k ∈ t.kind (t.locate q), k = .directory

section Walk
variable {t : FileTree String} {path : Path String} {pos : ℕ} {mode : Perms}

theorem grant_eq (pos : ℕ) (mode : Perms) (t : FileTree String) (subPath path : Path String) :
    ∃ ls, (grant pos mode t subPath subPath.length path).1 = t.regrade ls mode ∧
      (∀ l ∈ ls, ∃ q, q <+: subPath ++ path ∧ subPath.length < q.length ∧ t.locate q = l) ∧
      ((grant pos mode t subPath subPath.length path).2 = true →
        ∀ q, q <+: subPath ++ path → subPath.length < q.length → pos < q.length →
          t.locate q ∈ ls) := by
  induction path generalizing t subPath with
  | nil =>
    refine ⟨[], (regrade_nil mode).symm, by simp, fun _ q hq hlen _ => ?_⟩
    have := hq.length_le
    simp only [List.append_nil] at this
    omega
  | cons c path ih =>
    have hlen : (subPath ++ [c]).length = subPath.length + 1 := by simp
    have happ : subPath ++ c :: path = subPath ++ [c] ++ path := by simp
    have hstep : subPath ++ [c] <+: subPath ++ c :: path := happ ▸ List.prefix_append _ _
    simp only [grant]
    by_cases hpos : pos ≤ subPath.length
    · rw [if_pos hpos, permissions]
      by_cases hs : (t.status (subPath ++ [c])).isSome
      · rw [if_pos hs]
        obtain ⟨ls, he, hmem, hall⟩ :=
          ih (t.regrade [t.locate (subPath ++ [c])] mode) (subPath ++ [c])
        rw [hlen] at he hmem hall
        refine ⟨t.locate (subPath ++ [c]) :: ls, ?_, ?_, fun hok q hq hq1 hq2 => ?_⟩
        · exact he.trans (regrade_regrade _ _ _)
        · intro l hl
          obtain rfl | hl := List.mem_cons.mp hl
          · exact ⟨_, hstep, by omega, rfl⟩
          · obtain ⟨q, hq, hlt, hloc⟩ := hmem l hl
            exact ⟨q, happ ▸ hq, by omega, hloc⟩
        · by_cases hlt : subPath.length + 1 < q.length
          · exact List.mem_cons_of_mem _ (hall hok q (happ ▸ hq) hlt hq2)
          · have hqc : q = subPath ++ [c] := by
              refine (List.prefix_of_prefix_length_le hq hstep (by omega)).eq_of_length ?_
              omega
            rw [hqc]
            exact List.mem_cons_self
      · rw [if_neg hs]
        exact ⟨[], (regrade_nil mode).symm, by simp, fun h => absurd h (by simp)⟩
    · rw [if_neg hpos]
      obtain ⟨ls, he, hmem, hall⟩ := ih t (subPath ++ [c])
      rw [hlen] at he hmem hall
      refine ⟨ls, he, ?_, fun hok q hq hq1 hq2 => ?_⟩
      · intro l hl
        obtain ⟨q, hq, hlt, hloc⟩ := hmem l hl
        exact ⟨q, happ ▸ hq, by omega, hloc⟩
      · exact hall hok q (happ ▸ hq) (by omega) hq2

theorem grant_ok {subPath : Path String}
    (h : ∀ q, q <+: subPath ++ path → subPath.length < q.length → (t.status q).isSome) (i : ℕ) :
    (grant pos mode t subPath i path).2 = true := by
  induction path generalizing t subPath i with
  | nil => rfl
  | cons c path ih =>
    have happ : subPath ++ c :: path = subPath ++ [c] ++ path := by simp
    have hc := h (subPath ++ [c]) (happ ▸ List.prefix_append _ _) (by simp)
    have hrest : ∀ q, q <+: subPath ++ [c] ++ path → (subPath ++ [c]).length < q.length →
        (t.status q).isSome := fun q hq hlen => by
      refine h q (happ ▸ hq) ?_
      simp only [List.length_append, List.length_singleton] at hlen
      omega
    simp only [grant, permissions, if_pos hc]
    split
    · exact ih (fun q hq hlen => status_regrade_isSome _ _ (hrest q hq hlen)) _
    · exact ih hrest _

end Walk

section OpenFile
variable {t : FileTree String} {path : Path String} {l : Location String}

@[simp] theorem locate_openFile (q : Path String) : (openFile t path).locate q = t.locate q := by
  unfold openFile
  split <;> rfl

theorem kind_openFile_directory (h : t.kind l = some .directory) :
    (openFile t path).kind l = some .directory := by
  unfold openFile
  split
  · exact kind_truncate_directory h
  · exact h

theorem kind_openFile_isRegularFile :
    ((openFile t path).kind l).any Kind.isRegularFile = (t.kind l).any Kind.isRegularFile := by
  unfold openFile
  split
  · exact kind_truncate_isRegularFile
  · rfl

theorem node_openFile_of_ne (h : l ≠ t.locate path) : (openFile t path).node l = t.node l := by
  unfold openFile
  split
  · exact node_truncate_of_ne h
  · rfl

end OpenFile

section Results
variable {umask : Perms} {t : FileTree String} {path dirPath : Path String} {type : PathType}
  {pos : ℕ} {mode : Perms}

theorem existsAs_iff : ExistsAs t path type ↔ path ≠ [] ∧
    (∀ q, q <+: path → q ≠ path → t.kind (t.locate q) = some .directory) ∧
      ∃ k, t.kind (t.locate path) = some k ∧ type.Matches k := by
  constructor
  · rintro ⟨n, hn, hm⟩
    obtain ⟨hne, hdirs, hn⟩ := status_eq_some_iff.mp hn
    exact ⟨hne, hdirs, n.kind, Option.map_eq_some_iff.mpr ⟨n, hn, rfl⟩, hm⟩
  · rintro ⟨hne, hdirs, k, hk, hm⟩
    obtain ⟨n, hn, rfl⟩ := Option.map_eq_some_iff.mp hk
    exact ⟨n, status_eq_some_iff.mpr ⟨hne, hdirs, hn⟩, hm⟩

theorem createPath_of_fails (hs : t.status path = none) (hd : type.dirPath path = some dirPath)
    (hc : (t.createDirectories (directoryPerms umask) dirPath).2 = false) :
    (createPath umask t path type pos mode).2 = .itcFilesystemSyscallError := by
  simp only [createPath, hs, Option.isSome_none, Bool.false_eq_true, if_false, hd]
  generalize t.createDirectories (directoryPerms umask) dirPath = created at hc
  obtain ⟨t', ok⟩ := created
  cases hc
  rfl

theorem createPath_of_works (hs : t.status path = none) (hd : type.dirPath path = some dirPath)
    (hc : (t.createDirectories (directoryPerms umask) dirPath).2 = true) :
    let granted := grant pos mode
      (openFile (t.createDirectories (directoryPerms umask) dirPath).1 path) [] 0 path
    createPath umask t path type pos mode = (granted.1,
      if granted.2 then .itcFilesystemOk else .itcFilesystemSyscallError) := by
  simp only [createPath, hs, Option.isSome_none, Bool.false_eq_true, if_false, hd]
  generalize t.createDirectories (directoryPerms umask) dirPath = created at hc
  obtain ⟨t', ok⟩ := created
  cases hc
  dsimp only
  generalize grant pos mode (openFile t' path) [] 0 path = granted
  obtain ⟨t'', ok⟩ := granted
  cases ok <;> rfl

theorem created_of_existsAs (h : ExistsAs t path type) :
    Created t path type pos mode (createPath umask t path type pos mode) := by
  obtain ⟨n, hn, hm⟩ := h
  have he : createPath umask t path type pos mode = (t, .itcFilesystemOk) := by
    simp [createPath, hn]
  rw [he]
  refine ⟨rfl, ⟨n, hn, hm⟩, fun q hq hne hproper => status_parent hn hq hne hproper,
    fun _ _ => rfl, fun q hq hlen hnone => ?_⟩
  have hsome := status_prefix_isSome hn hq (by rintro rfl; simp at hlen)
  rw [hnone] at hsome
  cases hsome

theorem prefix_dropLast_iff {path q : Path String} (hne : path ≠ []) :
    q <+: path.dropLast ↔ q <+: path ∧ q ≠ path := by
  have hpath := List.dropLast_append_getLast hne
  constructor
  · intro h
    refine ⟨h.trans <| List.dropLast_prefix path, ?_⟩
    rintro rfl
    have := h.length_le
    have hpos := List.length_pos_iff.mpr hne
    simp only [List.length_dropLast] at this
    omega
  · rintro ⟨h, hproper⟩
    rw [← hpath, List.prefix_concat_iff] at h
    exact h.resolve_left (by rwa [hpath])

theorem dropLast_ne_nil {k : Kind} (hs : t.status path = none) (hne : path ≠ [])
    (hk : t.kind (t.locate path) = some k) : path.dropLast ≠ [] := by
  intro hnil
  obtain ⟨n, hn, -⟩ := Option.map_eq_some_iff.mp hk
  have hstatus : t.status path = some n := by
    refine status_eq_some_iff.mpr ⟨hne, fun q hq hproper => ?_, hn⟩
    have hq' := (prefix_dropLast_iff hne).mpr ⟨hq, hproper⟩
    rw [hnil, List.prefix_nil] at hq'
    rw [hq']
    exact t.kind_workingDirectory
  rw [hs] at hstatus
  cases hstatus

theorem creatable_iff (umask : Perms) (hs : t.status path = none) :
    Creatable t path type ↔ (∃ dirPath, type.dirPath path = some dirPath ∧
      (t.createDirectories (directoryPerms umask) dirPath).2 = true) ∧
        (type = .regularFile → ∃ k ∈ t.kind (t.locate path), k.isRegularFile = true) := by
  cases type with
  | undefined => simp [Creatable, PathType.dirPath]
  | directory => simp [Creatable, PathType.dirPath, createDirectories_iff]
  | regularFile =>
    simp only [Creatable, PathType.dirPath, Option.some.injEq, exists_eq_left', true_implies]
    refine and_congr_left fun ⟨k, hk, hregular⟩ => ?_
    have hne : path ≠ [] := by
      rintro rfl
      have hdir : t.kind (t.locate []) = some .directory := t.kind_workingDirectory
      rw [hdir] at hk
      cases hk
      cases hregular
    have hdrop := dropLast_ne_nil hs hne hk
    have hroot : path ≠ [.rootDirectory] := by
      rintro rfl
      exact hdrop rfl
    rw [parentPath, if_neg hroot, createDirectories_iff, and_iff_right hdrop]
    simp only [prefix_dropLast_iff hne, and_imp]

theorem prefix_of_dirPath (hd : type.dirPath path = some dirPath) : dirPath <+: path := by
  cases type with
  | undefined => cases hd
  | directory =>
    cases hd
    exact List.prefix_rfl
  | regularFile =>
    cases hd
    unfold parentPath
    split
    · exact List.prefix_rfl
    · exact List.dropLast_prefix path

theorem prefix_dirPath (hd : type.dirPath path = some dirPath) {q : Path String}
    (hq : q <+: path) (hproper : q ≠ path) : q <+: dirPath := by
  cases type with
  | undefined => cases hd
  | directory =>
    cases hd
    exact hq
  | regularFile =>
    cases hd
    unfold parentPath
    split
    · exact hq
    · refine (prefix_dropLast_iff ?_).mpr ⟨hq, hproper⟩
      rintro rfl
      exact hproper (List.prefix_nil.mp hq)

theorem locate_createDirectories (perms : Perms) (q : Path String) :
    (t.createDirectories perms dirPath).1.locate q = t.locate q := by
  rw [FileTree.locate, FileTree.locate, (createDirectories_grows dirPath).1]

theorem createPath_regrade (pos : ℕ) (mode : Perms) (hs : t.status path = none)
    (hd : type.dirPath path = some dirPath)
    (hc : (t.createDirectories (directoryPerms umask) dirPath).2 = true) :
    ∃ ls, (createPath umask t path type pos mode).1 =
        (openFile (t.createDirectories (directoryPerms umask) dirPath).1 path).regrade ls mode ∧
      (∀ l ∈ ls, ∃ q, q <+: path ∧ q ≠ [] ∧ t.locate q = l) ∧
      ((createPath umask t path type pos mode).2 = .itcFilesystemOk →
        ∀ q, q <+: path → pos < q.length → t.locate q ∈ ls) := by
  obtain ⟨ls, he, hmem, hall⟩ := grant_eq pos mode
    (openFile (t.createDirectories (directoryPerms umask) dirPath).1 path) [] path
  rw [createPath_of_works hs hd hc]
  refine ⟨ls, he, fun l hl => ?_, fun hok q hq hlen => ?_⟩
  · obtain ⟨q, hq, hlen, hloc⟩ := hmem l hl
    rw [locate_openFile, locate_createDirectories] at hloc
    exact ⟨q, hq, List.length_pos_iff.mp hlen, hloc⟩
  · have hgranted : (grant pos mode
        (openFile (t.createDirectories (directoryPerms umask) dirPath).1 path) [] 0 path).2 =
          true := by
      by_contra h
      simp only [if_neg h] at hok
      cases hok
    have hq' := hall hgranted q hq (by simp only [List.length_nil]; omega) hlen
    rwa [locate_openFile, locate_createDirectories] at hq'

theorem creatable_of_created (hs : t.status path = none)
    (h : Created t path type pos mode (createPath umask t path type pos mode)) :
    Creatable t path type := by
  rw [creatable_iff umask hs]
  cases hd : type.dirPath path with
  | none =>
    have hok := h.ok
    simp only [createPath, hs, hd] at hok
    cases hok
  | some dirPath =>
    cases hc : (t.createDirectories (directoryPerms umask) dirPath).2 with
    | false =>
      have hok := h.ok
      rw [createPath_of_fails hs hd hc] at hok
      cases hok
    | true =>
      refine ⟨⟨dirPath, rfl, hc⟩, fun htype => ?_⟩
      subst htype
      obtain ⟨-, -, k, hk, hm⟩ := existsAs_iff.mp h.target
      obtain ⟨ls, he, -⟩ := createPath_regrade pos mode hs hd hc
      rw [he, kind_regrade, locate_regrade, locate_openFile, locate_createDirectories] at hk
      have hany : ((openFile (t.createDirectories (directoryPerms umask) dirPath).1 path).kind
          (t.locate path)).any Kind.isRegularFile = true := by
        rw [hk]
        exact hm
      -- the file is no new directory, so it was there before
      rw [kind_openFile_isRegularFile, Option.any_eq_true] at hany
      obtain ⟨k', hk', hregular⟩ := hany
      refine ⟨k', (createDirectories_grows dirPath).kind_of_ne hk' ?_, hregular⟩
      rintro rfl
      cases hregular

theorem existsAs_openFile (hd : type.dirPath path = some dirPath)
    (hc : (t.createDirectories (directoryPerms umask) dirPath).2 = true)
    (hregular : type = .regularFile → ∃ k ∈ t.kind (t.locate path), k.isRegularFile = true) :
    ExistsAs (openFile (t.createDirectories (directoryPerms umask) dirPath).1 path) path type := by
  have hne : path ≠ [] := by
    rintro rfl
    exact ((createDirectories_iff dirPath).mp hc).1 (List.prefix_nil.mp (prefix_of_dirPath hd))
  refine existsAs_iff.mpr ⟨hne, fun q hq hproper => ?_, ?_⟩
  · rw [locate_openFile, locate_createDirectories]
    exact kind_openFile_directory (createDirectories_kind hc (prefix_dirPath hd hq hproper))
  · rw [locate_openFile, locate_createDirectories]
    cases type with
    | undefined => cases hd
    | directory =>
      cases hd
      exact ⟨_, kind_openFile_directory (createDirectories_kind hc List.prefix_rfl), rfl⟩
    | regularFile =>
      obtain ⟨k, hk, hkr⟩ := hregular rfl
      refine (Option.any_eq_true _ _).mp ?_
      rw [kind_openFile_isRegularFile, Option.any_eq_true]
      exact ⟨k, (createDirectories_grows dirPath).kind hk, hkr⟩

theorem created_of_creatable (hs : t.status path = none) (h : Creatable t path type) :
    Created t path type pos mode (createPath umask t path type pos mode) := by
  obtain ⟨⟨dirPath, hd, hc⟩, hregular⟩ := (creatable_iff umask hs).mp h
  obtain ⟨ls, he, hmem, hall⟩ := createPath_regrade pos mode hs hd hc
  have hopened := existsAs_openFile hd hc hregular
  have hne : path ≠ [] := (existsAs_iff.mp hopened).1
  have hok : (createPath umask t path type pos mode).2 = .itcFilesystemOk := by
    obtain ⟨n, hn, -⟩ := hopened
    rw [createPath_of_works hs hd hc]
    exact if_pos (@grant_ok _ path pos mode [] (fun q hq hlen =>
      status_prefix_isSome hn hq (List.length_pos_iff.mp hlen)) 0)
  have htarget : ExistsAs (createPath umask t path type pos mode).1 path type := by
    rw [he, existsAs_iff]
    simpa only [kind_regrade, locate_regrade] using existsAs_iff.mp hopened
  obtain ⟨n, hn, hm⟩ := htarget
  refine ⟨hok, ⟨n, hn, hm⟩, fun q hq hne hproper => status_parent hn hq hne hproper,
    fun l hl => ?_, fun q hq hlen _ => ?_⟩
  · have hls : l ∉ ls := fun hl' => by
      obtain ⟨q, hq, hqne, hloc⟩ := hmem l hl'
      exact hl q hq hqne hloc
    rw [he, node_regrade_of_notMem hls, node_openFile_of_ne, createDirectories_node]
    · exact fun q hq hqne => hl q (hq.trans (prefix_of_dirPath hd)) hqne
    · rw [locate_createDirectories]
      exact (hl path List.prefix_rfl hne).symm
  · have hqne : q ≠ [] := by
      rintro rfl
      simp at hlen
    obtain ⟨m, hm⟩ := Option.isSome_iff_exists.mp (status_prefix_isSome hn hq hqne)
    have hnode := (status_eq_some_iff.mp hm).2.2
    rw [he, locate_regrade, locate_openFile, locate_createDirectories,
      node_regrade_of_mem (hall hok q hq hlen)] at hnode
    obtain ⟨m', -, rfl⟩ := Option.map_eq_some_iff.mp hnode
    rw [hm]
    rfl

/-- `createPath` keeps its promise where the path is there, and a missing one where it is
creatable. -/
theorem created_iff (umask : Perms) (t : FileTree String) (path : Path String) (type : PathType)
    (pos : ℕ) (mode : Perms) :
    Created t path type pos mode (createPath umask t path type pos mode) ↔
      ExistsAs t path type ∨ t.status path = none ∧ Creatable t path type := by
  cases hs : t.status path with
  | none =>
    have hexists : ¬ExistsAs t path type := fun ⟨n, hn, _⟩ => by simp [hs] at hn
    rw [or_iff_right hexists, and_iff_right rfl]
    exact ⟨creatable_of_created hs, created_of_creatable hs⟩
  | some n =>
    rw [or_iff_left (fun h => by cases h.1)]
    refine ⟨fun h => ?_, created_of_existsAs⟩
    have htarget := h.target
    rwa [show createPath umask t path type pos mode = (t, .itcFilesystemOk) by
      simp [createPath, hs]] at htarget

def emptyTree : FileTree String where
  node l := if l = [] then some ⟨.directory, 0x1ff⟩ else none
  workingDirectory := []
  kind_root := rfl
  kind_parent n l h := by simp at h
  kind_workingDirectory := rfl

/-- A file is asked for in a directory that is there, and none is made. -/
theorem not_created_regularFile : ¬∀ (umask : Perms) (t : FileTree String) (path : Path String)
    (type : PathType) (pos : ℕ) (mode : Perms), type ≠ .undefined →
    (∀ q, q <+: path → q ≠ path → ∀ n, t.status q = some n → n.kind = .directory) →
    (∀ n, t.status path = some n → type.Matches n.kind) →
    Created t path type pos mode (createPath umask t path type pos mode) := by
  intro h
  have hnone : emptyTree.status [.rootDirectory, .name "file"] = none := rfl
  refine absurd (h 0 emptyTree [.rootDirectory, .name "file"] .regularFile 0 0x1ff (by decide)
    (fun q hq hproper n hn => ?_) (fun n hn => ?_)).ok (by decide)
  · obtain ⟨-, -, hnode⟩ := status_eq_some_iff.mp hn
    obtain ⟨-, hn⟩ := Option.ite_none_right_eq_some.mp hnode
    cases hn
    rfl
  · rw [hnone] at hn
    cases hn

end Results

end ItcPlatform.FileSystem
