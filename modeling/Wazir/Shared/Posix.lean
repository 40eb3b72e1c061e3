import Mathlib.Data.List.Induction
import Mathlib.Tactic.Common

/-! Path resolution: component by component, links followed where they are met, and `..` taken from
where they led. Beside it the lexical reading of a path, which only looks at the text. -/

namespace Wazir.Posix

inductive Object where
  | directory
  | file
  | link (target : String)
  deriving DecidableEq

/-- `""` stands between two slashes and after the last one. -/
def isDot (name : String) : Bool := name = "" || name = "."

/-- A component that names an entry of a directory. -/
def isName (name : String) : Bool := !isDot name && name ≠ ".."

/-- The objects by their physical paths; each is in a directory. -/
structure FileSystem where
  object : List String → Option Object
  root : object [] = some .directory
  parent : ∀ path name, (object (path ++ [name])).isSome → object path = some .directory
  names : ∀ path name, (object (path ++ [name])).isSome → isName name = true

/-- Where a path leads. A vacant place is a free name in a directory. -/
inductive Place where
  | directory (path : List String)
  | file (path : List String)
  | vacant (path : List String)
  deriving DecidableEq

def Place.path : Place → List String
  | .directory path => path
  | .file path => path
  | .vacant path => path

def components (p : String) : List String :=
  (p.toList.splitOn '/').map String.ofList

def isAbsolute (p : String) : Bool := p.toList.head? = some '/'

/-- The directory that `p` is taken from. -/
def start (dir : List String) (p : String) : List String :=
  if isAbsolute p then [] else dir

/-- Every entry has a name in a directory. -/
def closed (entries : List (List String × Object)) : Bool :=
  entries.all fun e => e.1.getLast?.any isName &&
    (e.1.dropLast = [] || entries.lookup e.1.dropLast = some .directory)

theorem closed_parent {entries : List (List String × Object)} (h : closed entries = true)
    {path : List String} {name : String} (hsome : (entries.lookup (path ++ [name])).isSome) :
    isName name = true ∧ (path = [] ∨ entries.lookup path = some .directory) := by
  obtain ⟨object, hlookup⟩ := Option.isSome_iff_exists.1 hsome
  obtain ⟨before, after, rfl, -⟩ := List.lookup_eq_some_iff.1 hlookup
  simpa using List.all_eq_true.1 h (path ++ [name], object) (by simp)

/-- The file system with these objects below its root. -/
def FileSystem.ofEntries (entries : List (List String × Object)) (h : closed entries = true) :
    FileSystem where
  object path := if path = [] then some .directory else entries.lookup path
  root := rfl
  parent path name hsome := by
    obtain ⟨-, hpath⟩ := closed_parent h (by simpa using hsome)
    split_ifs with hnil
    · rfl
    · exact hpath.resolve_left hnil
  names path name hsome := (closed_parent h (by simpa using hsome)).1

variable {dir comps : List String}

section Resolution

variable (fs : FileSystem)

/-- The components lead from a directory to a place, by `n` links. -/
inductive Resolves : List String → List String → ℕ → Place → Prop
  | done (dir : List String) : Resolves dir [] 0 (.directory dir)
  | dot {dir rest : List String} {name : String} {n : ℕ} {place : Place} (hname : isDot name = true)
      (h : Resolves dir rest n place) : Resolves dir (name :: rest) n place
  | up {dir rest : List String} {n : ℕ} {place : Place} (h : Resolves dir.dropLast rest n place) :
      Resolves dir (".." :: rest) n place
  | enter {dir rest : List String} {name : String} {n : ℕ} {place : Place}
      (hname : isName name = true) (hobject : fs.object (dir ++ [name]) = some .directory)
      (h : Resolves (dir ++ [name]) rest n place) : Resolves dir (name :: rest) n place
  | file {dir : List String} {name : String} (hname : isName name = true)
      (hobject : fs.object (dir ++ [name]) = some .file) :
      Resolves dir [name] 0 (.file (dir ++ [name]))
  | vacant {dir : List String} {name : String} (hname : isName name = true)
      (hobject : fs.object (dir ++ [name]) = none) :
      Resolves dir [name] 0 (.vacant (dir ++ [name]))
  | follow {dir rest : List String} {name target : String} {n : ℕ} {place : Place}
      (hname : isName name = true) (hobject : fs.object (dir ++ [name]) = some (.link target))
      (h : Resolves (start dir target) (components target ++ rest) n place) :
      Resolves dir (name :: rest) (n + 1) place

/-- The walk along the components; `follow` goes on behind a link. -/
def walkFrom (follow : List String → List String → Option Place) :
    List String → List String → Option Place
  | dir, [] => some (.directory dir)
  | dir, name :: rest =>
    if isDot name then walkFrom follow dir rest
    else if name = ".." then walkFrom follow dir.dropLast rest
    else
      match fs.object (dir ++ [name]) with
      | some .directory => walkFrom follow (dir ++ [name]) rest
      | some .file => if rest = [] then some (.file (dir ++ [name])) else none
      | some (.link target) => follow (start dir target) (components target ++ rest)
      | none => if rest = [] then some (.vacant (dir ++ [name])) else none

/-- The resolution that gives up behind `limit` links. -/
def walk : ℕ → List String → List String → Option Place
  | 0 => walkFrom fs fun _ _ => none
  | limit + 1 => walkFrom fs (walk limit)

variable {fs}

theorem walkFrom_sound {follow : List String → List String → Option Place} {limit : ℕ}
    (hfollow : ∀ dir comps place, follow dir comps = some place →
      ∃ n, n + 1 ≤ limit ∧ Resolves fs dir comps n place)
    {comps dir : List String} {place : Place} (h : walkFrom fs follow dir comps = some place) :
    ∃ n ≤ limit, Resolves fs dir comps n place := by
  induction comps generalizing dir with
  | nil =>
    obtain rfl := Option.some.inj h
    exact ⟨0, Nat.zero_le _, .done dir⟩
  | cons name rest ih =>
    rw [walkFrom] at h
    by_cases hdot : isDot name = true
    · rw [if_pos hdot] at h
      obtain ⟨n, hn, hr⟩ := ih h
      exact ⟨n, hn, .dot hdot hr⟩
    rw [if_neg hdot] at h
    by_cases hup : name = ".."
    · subst hup
      rw [if_pos rfl] at h
      obtain ⟨n, hn, hr⟩ := ih h
      exact ⟨n, hn, .up hr⟩
    rw [if_neg hup] at h
    have hname : isName name = true := by simp [isName, hdot, hup]
    split at h
    · rename_i hobject
      obtain ⟨n, hn, hr⟩ := ih h
      exact ⟨n, hn, .enter hname hobject hr⟩
    · rename_i hobject
      split_ifs at h with hrest
      obtain rfl := Option.some.inj h
      exact ⟨0, Nat.zero_le _, hrest ▸ .file hname hobject⟩
    · rename_i target hobject
      obtain ⟨n, hn, hr⟩ := hfollow _ _ _ h
      exact ⟨n + 1, hn, .follow hname hobject hr⟩
    · rename_i hobject
      split_ifs at h with hrest
      obtain rfl := Option.some.inj h
      exact ⟨0, Nat.zero_le _, hrest ▸ .vacant hname hobject⟩

theorem walk_sound {limit : ℕ} {place : Place} (h : walk fs limit dir comps = some place) :
    ∃ n ≤ limit, Resolves fs dir comps n place := by
  induction limit generalizing dir comps place with
  | zero => exact walkFrom_sound (fun _ _ _ h => by simp at h) h
  | succ limit ih =>
    refine walkFrom_sound (fun dir comps place h => ?_) h
    obtain ⟨n, hn, hr⟩ := ih h
    exact ⟨n, by omega, hr⟩

theorem isName_iff {name : String} : isName name = true ↔ isDot name = false ∧ name ≠ ".." := by
  simp [isName]

/-- The walk of one component that names an entry. -/
theorem walk_name {limit : ℕ} {dir rest : List String} {name : String} (h : isName name = true) :
    walk fs limit dir (name :: rest) =
      match fs.object (dir ++ [name]) with
      | some .directory => walk fs limit (dir ++ [name]) rest
      | some .file => if rest = [] then some (.file (dir ++ [name])) else none
      | some (.link target) =>
        match limit with
        | 0 => none
        | limit + 1 => walk fs limit (start dir target) (components target ++ rest)
      | none => if rest = [] then some (.vacant (dir ++ [name])) else none := by
  obtain ⟨hdot, hup⟩ := isName_iff.1 h
  cases limit <;> simp [walk, walkFrom, hdot, hup]

theorem Resolves.walk {n : ℕ} {place : Place} (h : Resolves fs dir comps n place) {limit : ℕ}
    (hlimit : n ≤ limit) :
    walk fs limit dir comps = some place := by
  induction h generalizing limit with
  | done dir => cases limit <;> rfl
  | dot hname h ih =>
    have := ih hlimit
    cases limit <;> simpa [Posix.walk, walkFrom, hname] using this
  | up h ih =>
    have := ih hlimit
    cases limit <;> simpa [Posix.walk, walkFrom, isDot] using this
  | enter hname hobject h ih =>
    rw [walk_name hname, hobject]
    exact ih hlimit
  | file hname hobject =>
    rw [walk_name hname, hobject]
    exact if_pos rfl
  | vacant hname hobject =>
    rw [walk_name hname, hobject]
    exact if_pos rfl
  | follow hname hobject h ih =>
    obtain ⟨limit, rfl⟩ : ∃ l, limit = l + 1 := ⟨limit - 1, by omega⟩
    rw [walk_name hname, hobject]
    exact ih (by omega)

theorem Resolves.unique {m n : ℕ} {place place' : Place} (h : Resolves fs dir comps m place)
    (h' : Resolves fs dir comps n place') : place = place' :=
  Option.some.inj ((h.walk (Nat.le_max_left m n)).symm.trans (h'.walk (Nat.le_max_right m n)))

theorem Resolves.append {dir xs ys d : List String} {m n : ℕ} {place : Place}
    (h : Resolves fs dir xs m (.directory d)) (h' : Resolves fs d ys n place) :
    Resolves fs dir (xs ++ ys) (m + n) place := by
  generalize hd : Place.directory d = p at h
  induction h with
  | done dir =>
    obtain rfl := Place.directory.inj hd
    simpa using h'
  | dot hname h ih => exact .dot hname (ih hd)
  | up h ih => exact .up (ih hd)
  | enter hname hobject h ih => exact .enter hname hobject (ih hd)
  | file hname hobject => cases hd
  | vacant hname hobject => cases hd
  | follow hname hobject h ih =>
    rw [Nat.add_right_comm]
    exact .follow hname hobject (by simpa using ih hd)

/-- What comes before more components leads to a directory. -/
theorem Resolves.split {dir xs ys : List String} {n : ℕ} {place : Place} (hys : ys ≠ [])
    (h : Resolves fs dir (xs ++ ys) n place) : ∃ d m k, Resolves fs dir xs m (.directory d) ∧
      Resolves fs d ys k place ∧ m + k = n := by
  generalize hcomps : xs ++ ys = comps at h
  induction h generalizing xs with
  | done dir => exact absurd (List.append_eq_nil_iff.1 hcomps).2 hys
  | @dot dir rest name n place hname h ih =>
    rcases List.append_eq_cons_iff.1 hcomps with ⟨rfl, rfl⟩ | ⟨xs, rfl, rfl⟩
    · exact ⟨dir, 0, n, .done dir, .dot hname h, by omega⟩
    · obtain ⟨d, m, k, hxs, hrest, hsum⟩ := ih rfl
      exact ⟨d, m, k, .dot hname hxs, hrest, hsum⟩
  | @up dir rest n place h ih =>
    rcases List.append_eq_cons_iff.1 hcomps with ⟨rfl, rfl⟩ | ⟨xs, rfl, rfl⟩
    · exact ⟨dir, 0, n, .done dir, .up h, by omega⟩
    · obtain ⟨d, m, k, hxs, hrest, hsum⟩ := ih rfl
      exact ⟨d, m, k, .up hxs, hrest, hsum⟩
  | @enter dir rest name n place hname hobject h ih =>
    rcases List.append_eq_cons_iff.1 hcomps with ⟨rfl, rfl⟩ | ⟨xs, rfl, rfl⟩
    · exact ⟨dir, 0, n, .done dir, .enter hname hobject h, by omega⟩
    · obtain ⟨d, m, k, hxs, hrest, hsum⟩ := ih rfl
      exact ⟨d, m, k, .enter hname hobject hxs, hrest, hsum⟩
  | @file dir name hname hobject =>
    rcases List.append_eq_cons_iff.1 hcomps with ⟨rfl, rfl⟩ | ⟨xs, rfl, hnil⟩
    · exact ⟨dir, 0, 0, .done dir, .file hname hobject, rfl⟩
    · exact absurd (List.append_eq_nil_iff.1 hnil.symm).2 hys
  | @vacant dir name hname hobject =>
    rcases List.append_eq_cons_iff.1 hcomps with ⟨rfl, rfl⟩ | ⟨xs, rfl, hnil⟩
    · exact ⟨dir, 0, 0, .done dir, .vacant hname hobject, rfl⟩
    · exact absurd (List.append_eq_nil_iff.1 hnil.symm).2 hys
  | @follow dir rest name target n place hname hobject h ih =>
    rcases List.append_eq_cons_iff.1 hcomps with ⟨rfl, rfl⟩ | ⟨xs, rfl, rfl⟩
    · exact ⟨dir, 0, n + 1, .done dir, .follow hname hobject h, by omega⟩
    · obtain ⟨d, m, k, hxs, hrest, hsum⟩ := ih (List.append_assoc _ _ _)
      exact ⟨d, m + 1, k, .follow hname hobject hxs, hrest, by omega⟩

theorem names_of_object {path : List String} (h : (fs.object path).isSome) :
    ∀ name ∈ path, isName name = true := by
  induction path using List.reverseRecOn with
  | nil => simp
  | append_singleton path name ih =>
    have hpath : (fs.object path).isSome := by simp [fs.parent path name h]
    exact List.forall_mem_append.2 ⟨ih hpath, by simpa using fs.names path name h⟩

/-- A directory is reached by its physical path. -/
theorem resolves_self {dir : List String} (h : fs.object dir = some .directory) :
    Resolves fs [] dir 0 (.directory dir) := by
  induction dir using List.reverseRecOn with
  | nil => exact .done []
  | append_singleton dir name ih =>
    have hsome : (fs.object (dir ++ [name])).isSome := by simp [h]
    have hstep : Resolves fs dir [name] 0 (.directory (dir ++ [name])) :=
      .enter (fs.names dir name hsome) h (.done _)
    exact (ih (fs.parent dir name hsome)).append hstep

end Resolution

section Lexical

/-- The path that the text of `comps` gives from `base`: `..` takes a component away. -/
def lexical : List String → List String → List String
  | base, [] => base
  | base, name :: rest =>
    if isDot name then lexical base rest
    else if name = ".." then lexical base.dropLast rest
    else lexical (base ++ [name]) rest

variable (fs : FileSystem) (limit : ℕ)

/-- The object that the last component names, links not followed. -/
def lstat (path : List String) : Option Object :=
  match path.getLast? with
  | none => some .directory
  | some name =>
    match walk fs limit [] path.dropLast with
    | some (.directory dir) => fs.object (dir ++ [name])
    | _ => none

/-- The physical path of the object that a path leads to. -/
def realpath (path : List String) : Option (List String) :=
  match walk fs limit [] path with
  | some (.directory p) => some p
  | some (.file p) => some p
  | _ => none

def isLink (path : List String) : Bool :=
  match lstat fs limit path with
  | some (.link _) => true
  | _ => false

/-- No `..` takes a link away. -/
def dotsLexical : List String → List String → Bool
  | _, [] => true
  | base, name :: rest =>
    if isDot name then dotsLexical base rest
    else if name = ".." then !isLink fs limit base && dotsLexical base.dropLast rest
    else dotsLexical (base ++ [name]) rest

variable {fs limit}

theorem lstat_concat {path dir : List String} {name : String} {n : ℕ}
    (h : Resolves fs [] path n (.directory dir)) (hn : n ≤ limit) :
    lstat fs limit (path ++ [name]) = fs.object (dir ++ [name]) := by
  simp [lstat, h.walk hn]

theorem lexical_names {base comps : List String} (h : ∀ name ∈ base, isName name = true) :
    ∀ name ∈ lexical base comps, isName name = true := by
  induction comps generalizing base with
  | nil => exact h
  | cons name rest ih =>
    rw [lexical]
    split_ifs with hdot hup
    · exact ih h
    · exact ih fun name hname => h name (List.dropLast_subset _ hname)
    · refine ih fun name' hname => ?_
      rcases List.mem_append.1 hname with hname | hname
      · exact h name' hname
      · rw [List.mem_singleton.1 hname, isName_iff]
        exact ⟨by simpa using hdot, hup⟩

/-- A component that names an entry and is no link is the entry itself. -/
theorem Resolves.last {path dir : List String} {name : String} {n : ℕ} (hname : isName name = true)
    (h : Resolves fs [] (path ++ [name]) n (.directory dir)) (hn : n ≤ limit)
    (hlink : isLink fs limit (path ++ [name]) = false) :
    ∃ m ≤ n, Resolves fs [] path m (.directory dir.dropLast) := by
  obtain ⟨d, m, k, hpath, hlast, hsum⟩ := h.split (List.cons_ne_nil _ _)
  obtain ⟨hdot, hup⟩ := isName_iff.1 hname
  have hstat : lstat fs limit (path ++ [name]) = fs.object (d ++ [name]) :=
    lstat_concat hpath (by omega)
  refine ⟨m, by omega, ?_⟩
  cases hlast with
  | dot hdot' => simp [hdot] at hdot'
  | up => exact absurd rfl hup
  | enter _ hobject h =>
    cases h
    simpa using hpath
  | follow _ hobject h => simp [isLink, hstat, hobject] at hlink

/-- Where no `..` takes a link away, the text of a path leads where its resolution does. -/
theorem Resolves.lexical {base dir comps : List String} {m n : ℕ} {place : Place}
    (hnames : ∀ name ∈ base, isName name = true) (hbase : Resolves fs [] base m (.directory dir))
    (h : Resolves fs dir comps n place) (hlimit : m + n ≤ limit)
    (hdots : dotsLexical fs limit base comps = true) :
    ∃ k ≤ m + n, Resolves fs [] (lexical base comps) k place := by
  induction comps generalizing base dir m n with
  | nil =>
    cases h
    exact ⟨m, by omega, hbase⟩
  | cons name rest ih =>
    rw [dotsLexical] at hdots
    rw [Posix.lexical]
    by_cases hdot : isDot name = true
    · rw [if_pos hdot] at hdots ⊢
      cases h with
      | dot _ h => exact ih hnames hbase h hlimit hdots
      | up => simp [isDot] at hdot
      | enter hname | file hname | vacant hname | follow hname => simp [isName, hdot] at hname
    rw [if_neg hdot] at hdots ⊢
    by_cases hup : name = ".."
    · subst hup
      rw [if_pos rfl] at hdots ⊢
      obtain ⟨hlink, hrest⟩ := Bool.and_eq_true_iff.1 hdots
      rw [Bool.not_eq_true'] at hlink
      have h' : Resolves fs dir.dropLast rest n place := by
        cases h with
        | dot hname => simp [isDot] at hname
        | up h => exact h
        | enter hname | file hname | vacant hname | follow hname => simp [isName] at hname
      have hnames' : ∀ name ∈ base.dropLast, isName name = true := fun name hname =>
        hnames name (List.dropLast_subset _ hname)
      rcases List.eq_nil_or_concat base with rfl | ⟨path, last, rfl⟩
      · cases hbase
        exact ih hnames' (.done []) h' hlimit hrest
      · rw [List.concat_eq_append] at *
        obtain ⟨k, hk, hpath⟩ := hbase.last (hnames last (by simp)) (by omega) hlink
        rw [List.dropLast_concat] at *
        obtain ⟨k', hk', hplace⟩ := ih hnames' hpath h' (by omega) hrest
        exact ⟨k', by omega, hplace⟩
    rw [if_neg hup] at hdots ⊢
    have hname : isName name = true := isName_iff.2 ⟨by simpa using hdot, hup⟩
    by_cases hrest : rest = []
    · subst hrest
      exact ⟨m + n, Nat.le_refl _, hbase.append h⟩
    · obtain ⟨d, k, l, hfirst, hafter, hsum⟩ := (show Resolves fs dir ([name] ++ rest) n place from h).split hrest
      have hnames' : ∀ name' ∈ base ++ [name], isName name' = true :=
        List.forall_mem_append.2 ⟨hnames, by simpa using hname⟩
      obtain ⟨k', hk', hplace⟩ := ih hnames' (hbase.append hfirst) hafter (by omega) hdots
      exact ⟨k', by omega, hplace⟩

end Lexical

end Wazir.Posix
