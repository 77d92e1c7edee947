import Mathlib.Data.List.Infix
import Mathlib.Logic.Function.Basic

/-! A file system as one process sees it: a tree of nodes and a working directory. Every operation
is permitted, and there are no links. -/

namespace FileTree

abbrev Perms := BitVec 12

inductive Kind
  | directory
  | regularFile (contents : List UInt8)
  | other
  deriving DecidableEq

def Kind.isRegularFile : Kind → Bool
  | .regularFile _ => true
  | _ => false

structure Node where
  kind : Kind
  perms : Perms

abbrev Location (N : Type*) := List N

/-- A component of a path; `empty` stands behind a slash at the end. -/
inductive Component (N : Type*)
  | rootDirectory
  | name (n : N)
  | dot
  | dotDot
  | empty
  deriving DecidableEq

abbrev Path (N : Type*) := List (Component N)

def Component.apply {N : Type*} (l : Location N) : Component N → Location N
  | .rootDirectory => []
  | .name n => n :: l
  | .dot | .empty => l
  | .dotDot => l.tail

/-- Where a path leads if every step is taken. -/
def locateFrom {N : Type*} (l : Location N) (path : Path N) : Location N :=
  path.foldl Component.apply l

end FileTree

open FileTree in
@[ext]
structure FileTree (N : Type*) where
  node : Location N → Option Node
  workingDirectory : Location N
  kind_root : (node []).map Node.kind = some .directory
  kind_parent : ∀ n l, (node (n :: l)).isSome → (node l).map Node.kind = some .directory
  kind_workingDirectory : (node workingDirectory).map Node.kind = some .directory

namespace FileTree
variable {N : Type*} (t : FileTree N)

def kind (l : Location N) : Option Kind := (t.node l).map Node.kind

def locate (path : Path N) : Location N := locateFrom t.workingDirectory path

def statusFrom (l : Location N) : Path N → Option Node
  | [] => t.node l
  | c :: path => if t.kind l = some .directory then statusFrom (c.apply l) path else none

/-- `none` where nothing is found; an empty path names nothing. -/
def status (path : Path N) : Option Node :=
  if path = [] then none else t.statusFrom t.workingDirectory path

def modify (f : Location N → Node → Node)
    (hf : ∀ l n, n.kind = .directory → (f l n).kind = .directory) : FileTree N where
  node l := (t.node l).map (f l)
  workingDirectory := t.workingDirectory
  kind_root := by
    obtain ⟨n, hn, hk⟩ := Option.map_eq_some_iff.mp t.kind_root
    simp [hn, hf _ _ hk]
  kind_parent n l h := by
    obtain ⟨m, hm, hk⟩ := Option.map_eq_some_iff.mp (t.kind_parent n l (by simpa using h))
    simp [hm, hf _ _ hk]
  kind_workingDirectory := by
    obtain ⟨n, hn, hk⟩ := Option.map_eq_some_iff.mp t.kind_workingDirectory
    simp [hn, hf _ _ hk]

def Node.truncate (n : Node) : Node :=
  match n.kind with
  | .regularFile _ => { n with kind := .regularFile [] }
  | _ => n

section
variable [DecidableEq N]

def regrade (ls : List (Location N)) (mode : Perms) : FileTree N :=
  t.modify (fun l n => if l ∈ ls then { n with perms := mode } else n) fun l n h => by
    split <;> exact h

def permissions (path : Path N) (mode : Perms) : Option (FileTree N) :=
  if (t.status path).isSome then some (t.regrade [t.locate path] mode) else none

def truncate (path : Path N) : FileTree N :=
  t.modify (fun l n => if l = t.locate path then n.truncate else n) fun l n h => by
    split
    · rw [Node.truncate, h]
      exact h
    · exact h

theorem map_kind_update {node : Location N → Option Node} {l l' : Location N} (perms : Perms)
    (h : (node l').map Node.kind = some .directory) :
    (Function.update node l (some ⟨.directory, perms⟩) l').map Node.kind = some .directory := by
  by_cases hl : l' = l
  · rw [hl, Function.update_self]
    rfl
  · rwa [Function.update_of_ne hl]

def makeDirectory (perms : Perms) : Location N → Option (FileTree N)
  | [] => none
  | n :: l =>
    if h : t.kind l = some .directory ∧ t.node (n :: l) = none then
      some {
        node := Function.update t.node (n :: l) (some ⟨.directory, perms⟩)
        workingDirectory := t.workingDirectory
        kind_root := map_kind_update perms t.kind_root
        kind_parent := fun m l' hm => by
          apply map_kind_update perms
          by_cases hl : m :: l' = n :: l
          · rw [List.cons.injEq] at hl
            exact hl.2 ▸ h.1
          · rw [Function.update_of_ne hl] at hm
            exact t.kind_parent m l' hm
        kind_workingDirectory := map_kind_update perms t.kind_workingDirectory }
    else none

/-- `create_directories` from a directory on, with what there is when it stops and whether it
succeeded. -/
def createDirectoriesFrom (perms : Perms) (t : FileTree N) (l : Location N) :
    Path N → FileTree N × Bool
  | [] => (t, true)
  | c :: path =>
    match t.kind (c.apply l) with
    | some .directory => createDirectoriesFrom perms t (c.apply l) path
    | some _ => (t, false)
    | none =>
      match t.makeDirectory perms (c.apply l) with
      | none => (t, false)
      | some t' => createDirectoriesFrom perms t' (c.apply l) path

def createDirectories (perms : Perms) (path : Path N) : FileTree N × Bool :=
  if path = [] then (t, false) else createDirectoriesFrom perms t t.workingDirectory path

end

/-! ### Walks -/

section
variable {t : FileTree N} {l : Location N}

@[simp] theorem locateFrom_nil (l : Location N) : locateFrom l [] = l := rfl

@[simp] theorem locateFrom_cons (l : Location N) (c : Component N) (path : Path N) :
    locateFrom l (c :: path) = locateFrom (c.apply l) path := rfl

theorem forall_prefix_cons {p : Location N → Prop} {c : Component N} {path : Path N} :
    (∀ q, q <+: c :: path → p (locateFrom l q)) ↔
      p l ∧ ∀ q, q <+: path → p (locateFrom (c.apply l) q) := by
  constructor
  · intro h
    exact ⟨h [] ⟨c :: path, rfl⟩, fun q hq => h (c :: q) (List.cons_prefix_cons.mpr ⟨rfl, hq⟩)⟩
  · rintro ⟨h, hrest⟩ q hq
    cases q with
    | nil => exact h
    | cons d q =>
      obtain ⟨rfl, hq'⟩ := List.cons_prefix_cons.mp hq
      exact hrest q hq'

theorem forall_proper_prefix_cons {p : Location N → Prop} {c : Component N} {path : Path N} :
    (∀ q, q <+: c :: path → q ≠ c :: path → p (locateFrom l q)) ↔
      p l ∧ ∀ q, q <+: path → q ≠ path → p (locateFrom (c.apply l) q) := by
  constructor
  · intro h
    refine ⟨h [] List.nil_prefix (by simp), fun q hq hne => ?_⟩
    exact h (c :: q) (List.cons_prefix_cons.mpr ⟨rfl, hq⟩) (by simpa using hne)
  · rintro ⟨h, hrest⟩ q hq hne
    cases q with
    | nil => exact h
    | cons d q =>
      obtain ⟨rfl, hq'⟩ := List.cons_prefix_cons.mp hq
      exact hrest q hq' (by simpa using hne)

theorem statusFrom_eq_some_iff {path : Path N} {n : Node} :
    t.statusFrom l path = some n ↔
      (∀ q, q <+: path → q ≠ path → t.kind (locateFrom l q) = some .directory) ∧
        t.node (locateFrom l path) = some n := by
  induction path generalizing l with
  | nil => simp [statusFrom]
  | cons c path ih =>
    rw [forall_proper_prefix_cons (p := fun l => t.kind l = some .directory), statusFrom, and_assoc,
      locateFrom_cons, ← ih]
    by_cases hl : t.kind l = some .directory <;> simp [hl]

theorem status_eq_some_iff {path : Path N} {n : Node} :
    t.status path = some n ↔ path ≠ [] ∧
      (∀ q, q <+: path → q ≠ path → t.kind (t.locate q) = some .directory) ∧
        t.node (t.locate path) = some n := by
  unfold status
  by_cases hp : path = []
  · simp [hp]
  · rw [if_neg hp, statusFrom_eq_some_iff, and_iff_right hp]
    rfl

theorem status_parent {path q : Path N} {n : Node} (h : t.status path = some n)
    (hq : q <+: path) (hne : q ≠ []) (hproper : q ≠ path) :
    (t.status q).map Node.kind = some .directory := by
  obtain ⟨-, hdirs, -⟩ := status_eq_some_iff.mp h
  obtain ⟨m, hm, hk⟩ := Option.map_eq_some_iff.mp (hdirs q hq hproper)
  have hstatus : t.status q = some m := by
    refine status_eq_some_iff.mpr ⟨hne, fun r hr hrq => hdirs r (hr.trans hq) ?_, hm⟩
    rintro rfl
    exact hrq (hr.eq_of_length_le hq.length_le)
  rw [hstatus, Option.map_some, hk]

theorem status_prefix_isSome {path q : Path N} {n : Node} (h : t.status path = some n)
    (hq : q <+: path) (hne : q ≠ []) : (t.status q).isSome := by
  by_cases hproper : q = path
  · rw [hproper, h]
    rfl
  · rw [← Option.isSome_map, status_parent h hq hne hproper]
    rfl

theorem kind_eq_of_node {t t' : FileTree N} {l : Location N} (h : t'.node l = t.node l) :
    t'.kind l = t.kind l := congrArg (Option.map Node.kind) h

theorem kind_apply (hl : t.kind l = some .directory) {c : Component N}
    (hc : ∀ n, c ≠ .name n) : t.kind (c.apply l) = some .directory := by
  cases c with
  | rootDirectory => exact t.kind_root
  | name n => exact absurd rfl (hc n)
  | dot => exact hl
  | dotDot =>
    cases l with
    | nil => exact t.kind_root
    | cons n l =>
      refine t.kind_parent n l ?_
      rw [← Option.isSome_map, show (t.node (n :: l)).map Node.kind = _ from hl]
      rfl
  | empty => exact hl

/-! ### New directories -/

def Grows (t t' : FileTree N) : Prop :=
  t'.workingDirectory = t.workingDirectory ∧
    ∀ l, t'.node l = t.node l ∨ t.node l = none ∧ t'.kind l = some .directory

theorem Grows.refl (t : FileTree N) : Grows t t := ⟨rfl, fun _ => .inl rfl⟩

theorem Grows.kind {t' : FileTree N} (h : Grows t t') {k : Kind} (hk : t.kind l = some k) :
    t'.kind l = some k := by
  obtain hl | ⟨hl, -⟩ := h.2 l
  · rwa [kind_eq_of_node hl]
  · simp [FileTree.kind, hl] at hk

theorem Grows.kind_of_ne {t' : FileTree N} (h : Grows t t') {k : Kind} (hk : t'.kind l = some k)
    (hne : k ≠ .directory) : t.kind l = some k := by
  obtain hl | ⟨-, hl⟩ := h.2 l
  · rwa [kind_eq_of_node hl] at hk
  · rw [hk] at hl
    exact absurd (Option.some.inj hl) hne

theorem Grows.trans {t' t'' : FileTree N} (h : Grows t t') (h' : Grows t' t'') :
    Grows t t'' := by
  refine ⟨h'.1.trans h.1, fun l => ?_⟩
  obtain hl | ⟨hl, hk⟩ := h.2 l
  · obtain hl' | ⟨hl', hk'⟩ := h'.2 l
    · exact .inl (hl'.trans hl)
    · exact .inr ⟨hl ▸ hl', hk'⟩
  · exact .inr ⟨hl, h'.kind hk⟩

variable [DecidableEq N] {perms : Perms} {t' : FileTree N}

theorem makeDirectory_node (h : t.makeDirectory perms l = some t') :
    t'.workingDirectory = t.workingDirectory ∧ t.node l = none ∧
      t'.node = Function.update t.node l (some ⟨.directory, perms⟩) := by
  cases l with
  | nil => cases h
  | cons n l =>
    by_cases hl : t.kind l = some .directory ∧ t.node (n :: l) = none
    · rw [makeDirectory, dif_pos hl] at h
      cases h
      exact ⟨rfl, hl.2, rfl⟩
    · rw [makeDirectory, dif_neg hl] at h
      cases h

theorem makeDirectory_isSome (hl : t.kind l = some .directory) {n : N}
    (hn : t.node (n :: l) = none) : (t.makeDirectory perms (n :: l)).isSome := by
  simp [makeDirectory, hl, hn]

theorem makeDirectory_grows (h : t.makeDirectory perms l = some t') : Grows t t' := by
  obtain ⟨hw, hl, hnode⟩ := makeDirectory_node h
  refine ⟨hw, fun l' => ?_⟩
  by_cases hl' : l' = l
  · refine .inr ⟨hl' ▸ hl, ?_⟩
    rw [FileTree.kind, hnode, hl', Function.update_self]
    rfl
  · exact .inl (by rw [hnode, Function.update_of_ne hl'])

theorem makeDirectory_kind (h : t.makeDirectory perms l = some t') :
    t'.kind l = some .directory := by
  rw [FileTree.kind, (makeDirectory_node h).2.2, Function.update_self]
  rfl

theorem createDirectoriesFrom_cons (perms : Perms) (hl : t.kind l = some .directory)
    (c : Component N) (path : Path N) :
    (∃ t', Grows t t' ∧ t'.kind (c.apply l) = some .directory ∧
      (∀ l', l' ≠ c.apply l → t'.node l' = t.node l') ∧
      (∀ k ∈ t.kind (c.apply l), k = .directory) ∧
      createDirectoriesFrom perms t l (c :: path) =
        createDirectoriesFrom perms t' (c.apply l) path) ∨
    (∃ k ∈ t.kind (c.apply l), k ≠ .directory) ∧
      createDirectoriesFrom perms t l (c :: path) = (t, false) := by
  cases hk : t.kind (c.apply l) with
  | none =>
    have hnode : t.node (c.apply l) = none := by simpa [FileTree.kind] using hk
    have hsome : (t.makeDirectory perms (c.apply l)).isSome := by
      by_cases hc : ∃ n, c = .name n
      · obtain ⟨n, rfl⟩ := hc
        exact makeDirectory_isSome hl hnode
      · rw [kind_apply hl (fun n hn => hc ⟨n, hn⟩)] at hk
        cases hk
    obtain ⟨t', ht'⟩ := Option.isSome_iff_exists.mp hsome
    refine .inl ⟨t', makeDirectory_grows ht', makeDirectory_kind ht', fun l' hne => ?_, by simp,
      by simp [createDirectoriesFrom, hk, ht']⟩
    rw [(makeDirectory_node ht').2.2, Function.update_of_ne hne]
  | some k =>
    by_cases hd : k = .directory
    · subst hd
      exact .inl ⟨t, .refl t, hk, fun _ _ => rfl, by simp, by simp [createDirectoriesFrom, hk]⟩
    · refine .inr ⟨⟨k, rfl, hd⟩, ?_⟩
      cases k with
      | directory => exact absurd rfl hd
      | regularFile contents => simp [createDirectoriesFrom, hk]
      | other => simp [createDirectoriesFrom, hk]

theorem createDirectoriesFrom_grows (hl : t.kind l = some .directory) (path : Path N) :
    Grows t (createDirectoriesFrom perms t l path).1 := by
  induction path generalizing t l with
  | nil => exact .refl t
  | cons c path ih =>
    obtain ⟨t', hg, hk, -, -, he⟩ | ⟨-, he⟩ := createDirectoriesFrom_cons perms hl c path
    · rw [he]
      exact hg.trans (ih hk)
    · rw [he]
      exact .refl t

theorem createDirectoriesFrom_node (hl : t.kind l = some .directory) {path : Path N}
    {l' : Location N} (h : ∀ q, q <+: path → q ≠ [] → locateFrom l q ≠ l') :
    (createDirectoriesFrom perms t l path).1.node l' = t.node l' := by
  induction path generalizing t l with
  | nil => rfl
  | cons c path ih =>
    obtain ⟨t', -, hk, hnode, -, he⟩ | ⟨-, he⟩ := createDirectoriesFrom_cons perms hl c path
    · have hc : c.apply l ≠ l' := h [c] (by simp) (by simp)
      have hrest : ∀ q, q <+: path → q ≠ [] → locateFrom (c.apply l) q ≠ l' :=
        fun q hq _ => h (c :: q) (List.cons_prefix_cons.mpr ⟨rfl, hq⟩) (by simp)
      rw [he, ih hk hrest, hnode l' hc.symm]
    · rw [he]

/-- It succeeds unless a component leads to something that is no directory. -/
theorem createDirectoriesFrom_iff (hl : t.kind l = some .directory) (path : Path N) :
    (createDirectoriesFrom perms t l path).2 = true ↔
      ∀ q, q <+: path → ∀ k ∈ t.kind (locateFrom l q), k = .directory := by
  induction path generalizing t l with
  | nil =>
    refine iff_of_true rfl fun q hq k hk => ?_
    rw [List.prefix_nil.mp hq, locateFrom_nil, hl] at hk
    exact (Option.some.inj hk).symm
  | cons c path ih =>
    rw [forall_prefix_cons (p := fun l => ∀ k ∈ t.kind l, k = .directory)]
    obtain ⟨t', hg, hk, hnode, hfree, he⟩ | ⟨⟨k, hk, hne⟩, he⟩ :=
      createDirectoriesFrom_cons perms hl c path
    · rw [he, ih hk, and_iff_right (by simp [hl])]
      refine forall₂_congr fun q hq => ?_
      by_cases hc : locateFrom (c.apply l) q = c.apply l
      · rw [hc]
        exact iff_of_true (by simp [hk]) hfree
      · rw [kind_eq_of_node (hnode _ hc)]
    · rw [he]
      exact iff_of_false Bool.false_ne_true fun h => hne (h.2 [] List.nil_prefix k hk)

theorem createDirectoriesFrom_kind (hl : t.kind l = some .directory) {path : Path N}
    (h : (createDirectoriesFrom perms t l path).2 = true) {q : Path N} (hq : q <+: path) :
    (createDirectoriesFrom perms t l path).1.kind (locateFrom l q) = some .directory := by
  induction path generalizing t l q with
  | nil =>
    rw [List.prefix_nil.mp hq]
    exact hl
  | cons c path ih =>
    obtain ⟨t', hg, hk, -, -, he⟩ | ⟨-, he⟩ := createDirectoriesFrom_cons perms hl c path
    · rw [he] at h ⊢
      cases q with
      | nil => exact (createDirectoriesFrom_grows hk path).kind (hg.kind hl)
      | cons d q =>
        obtain ⟨rfl, hq'⟩ := List.cons_prefix_cons.mp hq
        exact ih hk h hq'
    · rw [he] at h
      cases h

theorem createDirectories_grows (path : Path N) : Grows t (t.createDirectories perms path).1 := by
  unfold createDirectories
  split
  · exact .refl t
  · exact createDirectoriesFrom_grows t.kind_workingDirectory path

theorem createDirectories_node {path : Path N}
    (h : ∀ q, q <+: path → q ≠ [] → t.locate q ≠ l) :
    (t.createDirectories perms path).1.node l = t.node l := by
  unfold createDirectories
  split
  · rfl
  · exact createDirectoriesFrom_node t.kind_workingDirectory h

theorem createDirectories_iff (path : Path N) :
    (t.createDirectories perms path).2 = true ↔
      path ≠ [] ∧ ∀ q, q <+: path → ∀ k ∈ t.kind (t.locate q), k = .directory := by
  unfold createDirectories
  by_cases hp : path = []
  · simp [hp]
  · rw [if_neg hp, and_iff_right hp]
    exact createDirectoriesFrom_iff t.kind_workingDirectory path

theorem createDirectories_kind {path q : Path N}
    (h : (t.createDirectories perms path).2 = true) (hq : q <+: path) :
    (t.createDirectories perms path).1.kind (t.locate q) = some .directory := by
  have hp := ((createDirectories_iff path).mp h).1
  unfold createDirectories at h ⊢
  rw [if_neg hp] at h ⊢
  exact createDirectoriesFrom_kind t.kind_workingDirectory h hq

/-! ### Permissions -/

@[simp] theorem kind_regrade (ls : List (Location N)) (mode : Perms) (l : Location N) :
    (t.regrade ls mode).kind l = t.kind l := by
  simp only [FileTree.kind, regrade, modify, Option.map_map]
  congr 1
  funext n
  dsimp only [Function.comp_apply]
  split <;> rfl

@[simp] theorem locate_regrade (ls : List (Location N)) (mode : Perms) (path : Path N) :
    (t.regrade ls mode).locate path = t.locate path := rfl

theorem node_regrade_of_mem {ls : List (Location N)} {mode : Perms} (h : l ∈ ls) :
    (t.regrade ls mode).node l = (t.node l).map ({ · with perms := mode }) := by
  simp [regrade, modify, h]

theorem node_regrade_of_notMem {ls : List (Location N)} {mode : Perms} (h : l ∉ ls) :
    (t.regrade ls mode).node l = t.node l := by
  simp [regrade, modify, h]

theorem regrade_nil (mode : Perms) : t.regrade [] mode = t :=
  FileTree.ext (funext fun _ => node_regrade_of_notMem List.not_mem_nil) rfl

theorem regrade_regrade (ls ls' : List (Location N)) (mode : Perms) :
    (t.regrade ls mode).regrade ls' mode = t.regrade (ls ++ ls') mode := by
  refine FileTree.ext (funext fun l => ?_) rfl
  simp only [regrade, modify, Option.map_map, List.mem_append]
  congr 1
  funext n
  by_cases h : l ∈ ls <;> by_cases h' : l ∈ ls' <;> simp [h, h']

theorem status_regrade_isSome (ls : List (Location N)) (mode : Perms) {path : Path N}
    (h : (t.status path).isSome) : ((t.regrade ls mode).status path).isSome := by
  obtain ⟨n, hn⟩ := Option.isSome_iff_exists.mp h
  obtain ⟨hne, hdirs, hnode⟩ := status_eq_some_iff.mp hn
  have hkind : (t.regrade ls mode).kind (t.locate path) = some n.kind := by
    rw [kind_regrade, FileTree.kind, hnode]
    rfl
  obtain ⟨m, hm, -⟩ := Option.map_eq_some_iff.mp hkind
  rw [status_eq_some_iff.mpr ⟨hne, fun q hq hproper => by
    rw [kind_regrade, locate_regrade]
    exact hdirs q hq hproper, hm⟩]
  rfl

/-! ### Contents -/

theorem kind_truncate_directory {path : Path N} (h : t.kind l = some .directory) :
    (t.truncate path).kind l = some .directory := by
  obtain ⟨n, hn, hk⟩ := Option.map_eq_some_iff.mp h
  simp only [FileTree.kind, truncate, modify, hn, Option.map_some]
  split
  · simp [Node.truncate, hk]
  · rw [hk]

theorem kind_truncate_isRegularFile {path : Path N} :
    ((t.truncate path).kind l).any Kind.isRegularFile = (t.kind l).any Kind.isRegularFile := by
  simp only [FileTree.kind, truncate, modify, Option.map_map]
  cases t.node l with
  | none => rfl
  | some n =>
    simp only [Option.map_some, Function.comp_apply, Option.any_some]
    split
    · unfold Node.truncate
      split
      · next contents hk => rw [hk]; rfl
      · rfl
    · rfl

theorem node_truncate_of_ne {path : Path N} (h : l ≠ t.locate path) :
    (t.truncate path).node l = t.node l := by
  simp [truncate, modify, h]

end

end FileTree
