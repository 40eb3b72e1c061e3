import Wazir.Policy.Containment

/-! What an allowed path opens: the resolution of the path as it was given, against the containment
that the engine has checked. -/

namespace Wazir.Policy

open Posix

section Physical

variable {fs : FileSystem}

theorem realpath_place {c : List String} {m : ℕ} {place : Place} (h : Resolves fs [] c m place)
    (hm : m ≤ symloopMax) :
    realpath fs symloopMax c = match place with
      | .vacant _ => none
      | place => some place.path := by
  rw [realpath, h.walk hm]
  cases place <;> rfl

/-- At each dangling link in the chain that `c` ends in, no `..` of the target takes a link away. -/
def chainLexical (fs : FileSystem) : ℕ → List String → Bool
  | 0, _ => true
  | n + 1, c =>
    match realpath fs symloopMax c, lstat fs symloopMax c with
    | none, some (.link target) =>
      dotsLexical fs symloopMax (start c.dropLast target) (components target) &&
        chainLexical fs n (resolve c.dropLast target)
    | _, _ => true

theorem chainLexical_found {n : ℕ} {c p : List String} (h : realpath fs symloopMax c = some p) :
    chainLexical fs n c = true := by
  cases n with
  | zero => rfl
  | succ n => simp [chainLexical, h]

theorem start_resolves {base dir : List String} {n : ℕ} (target : String)
    (h : Resolves fs [] base n (.directory dir)) :
    ∃ k ≤ n, Resolves fs [] (start base target) k (.directory (start dir target)) := by
  unfold start
  split_ifs
  · exact ⟨0, Nat.zero_le _, .done []⟩
  · exact ⟨n, le_rfl, h⟩

theorem start_names {base : List String} (target : String)
    (h : ∀ name ∈ base, isName name = true) : ∀ name ∈ start base target, isName name = true := by
  unfold start
  split_ifs
  · simp
  · exact h

/-- The loop finds a vacant place by the links that lead there. -/
theorem physicalFrom_vacant (p : List String) {m : ℕ} {c q : List String}
    (hnames : ∀ name ∈ c, isName name = true) (h : Resolves fs [] c m (.vacant q))
    (hm : m ≤ symloopMax) {hops : ℕ} (hhops : m + 2 ≤ hops) {n : ℕ} (hn : m ≤ n)
    (hchain : chainLexical fs n c = true) : physicalFrom fs p hops c [] = q := by
  induction m using Nat.strong_induction_on generalizing c hops n with
  | _ m ih =>
    obtain ⟨hops, rfl⟩ : ∃ k, hops = k + 2 := ⟨hops - 2, by omega⟩
    have hreal : realpath fs symloopMax c = none := realpath_place h hm
    rcases List.eq_nil_or_concat c with rfl | ⟨b, name, rfl⟩
    · cases h
    rw [List.concat_eq_append] at *
    have hname : isName name = true := hnames name (by simp)
    have hb : ∀ name ∈ b, isName name = true := fun name hname => hnames name (by simp [hname])
    obtain ⟨dir, k, l, hbase, hlast, hsum⟩ := h.split (List.cons_ne_nil _ _)
    have hstat : lstat fs symloopMax (b ++ [name]) = fs.object (dir ++ [name]) :=
      lstat_concat hbase (by omega)
    have hdir : realpath fs symloopMax b = some dir := realpath_place hbase (by omega)
    cases hlast with
    | dot hdot => simp [isName, hdot] at hname
    | up => simp [isName] at hname
    | enter _ _ h => cases h
    | vacant _ hobject =>
      rw [hobject] at hstat
      simp [physicalFrom, hreal, hstat, hdir]
    | @follow _ _ _ target l _ _ hobject hrest =>
      rw [hobject] at hstat
      obtain ⟨n, rfl⟩ : ∃ n', n = n' + 1 := ⟨n - 1, by omega⟩
      simp only [chainLexical, hreal, hstat, List.dropLast_concat, Bool.and_eq_true] at hchain
      obtain ⟨k', hk', hstart⟩ := start_resolves target hbase
      rw [List.append_nil] at hrest
      obtain ⟨m', hm', hnext⟩ :=
        hstart.lexical (start_names target hb) hrest (by omega) hchain.1
      rw [physicalFrom, hreal]
      simp only [hstat, List.dropLast_concat]
      exact ih m' (by omega) (lexical_names (start_names target hb)) hnext (by omega) (by omega)
        (by omega) hchain.2

/-- Where the text is enough, the physical path of a path is where its resolution leads. -/
theorem physicalPath_place {c : List String} {m : ℕ} {place : Place}
    (hnames : ∀ name ∈ c, isName name = true) (h : Resolves fs [] c m place) (hm : m ≤ symloopMax)
    (hchain : chainLexical fs symloopMax c = true) : physicalPath fs c = place.path := by
  cases place with
  | directory path =>
    have hreal : realpath fs symloopMax c = some path := realpath_place h hm
    simp [physicalPath, physicalFrom, hreal, Place.path]
  | file path =>
    have hreal : realpath fs symloopMax c = some path := realpath_place h hm
    simp [physicalPath, physicalFrom, hreal, Place.path]
  | vacant path =>
    exact physicalFrom_vacant c hnames h hm (by unfold symloopMax at hm; omega) hm hchain

end Physical

section Lexical

theorem prefixed_joined (name : String) (rest : List String) :
    name.toList <+: (joined (name :: rest)).toList := by
  cases rest with
  | nil => exact List.prefix_rfl
  | cons next rest =>
    rw [joined, String.toList_append, String.toList_append, List.append_assoc]
    · exact List.prefix_append _ _
    · simp

/-- A relative path that does not start with `..` stays below its root. -/
theorem prefix_of_relative {root target : List String}
    (h : hasPrefix ".." (joined (relative root target)) = false) : root <+: target := by
  have hup : ∀ rest, hasPrefix ".." (joined (".." :: rest)) = true := fun rest =>
    List.isPrefixOf_iff_prefix.2 (prefixed_joined ".." rest)
  induction root generalizing target with
  | nil => exact List.nil_prefix
  | cons x root ih =>
    cases target with
    | nil => simp [relative, hup] at h
    | cons y target =>
      rw [relative] at h
      split_ifs at h with hxy
      · subst hxy
        exact (List.cons_prefix_cons).2 ⟨rfl, ih h⟩
      · simp [hup] at h

theorem isInsideLexical_prefix {root target : List String}
    (h : isInsideLexical root target = true) : root <+: target := by
  rw [isInsideLexical, Bool.or_eq_true, Bool.and_eq_true] at h
  refine prefix_of_relative ?_
  rcases h with h | h
  · rw [of_decide_eq_true h]
    decide +kernel
  · simpa using h.1

end Lexical

/-- An access whose path the engine checks. -/
inductive Access where
  | fileTool (tool lower : String)
  | readCommand (name : String)
  | redirect (op : String)

namespace Host

variable (host : Host) (projectRoot : String)

/-- The directory that a process enters for the project root. -/
def projectDir : Option Place :=
  walk host.fs symloopMax (start host.cwd projectRoot) (components projectRoot)

/-- What the system opens, or creates, for the path `p` in the directory `dir`. -/
def opens (dir : List String) (p : String) : Option Place :=
  walk host.fs symloopMax (start dir p) (components p)

/-- The engine allows the access because `p` is inside the project root. -/
def allows (p : String) : Access → Bool
  | .fileTool tool lower =>
    (lower ∈ fileToolsRead || lower ∈ fileToolsWrite) && p ≠ "" &&
      (host.classifyFileTool projectRoot tool lower (some p)).decision = .allow
  | .readCommand name =>
    name ∈ pathReadingCommands && !exemptRead p && host.classifyReadPath projectRoot name p = []
  | .redirect op => !exemptRedirect op p && host.classifyRedirect projectRoot op p = none

variable {host projectRoot}

theorem classifyReadPath_inside {name p : String} (hname : name ∈ pathReadingCommands)
    (hexempt : exemptRead p = false) (h : host.classifyReadPath projectRoot name p = []) :
    isInside host.fs (host.root projectRoot) (resolve (host.root projectRoot) p) = true := by
  unfold classifyReadPath at h
  simp only [hname, not_true_eq_false, if_false, hexempt, Bool.false_eq_true] at h
  split_ifs at h with hdollar hin hin'
  · exact (Bool.and_eq_true_iff.1 hin).2
  · exact (Bool.and_eq_true_iff.1 hin').2

theorem allows_inside {p : String} {access : Access}
    (h : host.allows projectRoot p access = true) :
    isInside host.fs (host.root projectRoot) (resolve (host.root projectRoot) p) = true := by
  cases access with
  | fileTool tool lower =>
    simp only [allows, Bool.and_eq_true, decide_eq_true_eq] at h
    obtain ⟨⟨-, hne⟩, hallow⟩ := h
    have hsome : (some p).filter (· ≠ "") = some p := by simp [hne]
    by_contra hout
    rw [classifyFileTool, hsome] at hallow
    simp [hout] at hallow
  | readCommand name =>
    simp only [allows, Bool.and_eq_true, decide_eq_true_eq, Bool.not_eq_true'] at h
    exact classifyReadPath_inside h.1.1 h.1.2 h.2
  | redirect op =>
    simp only [allows, Bool.and_eq_true, decide_eq_true_eq, Bool.not_eq_true'] at h
    obtain ⟨hexempt, hnone⟩ := h
    simp only [exemptRedirect, Bool.or_eq_false_iff, decide_eq_false_iff_not] at hexempt
    obtain ⟨⟨⟨hduplicate, hread⟩, hdigits⟩, hdiscard⟩ := hexempt
    unfold classifyRedirect at hnone
    split_ifs at hnone with hop hin hempty hdup hempty' hnull hexpand
    · exact absurd hop (not_or.2 hduplicate)
    · rw [List.head?_eq_none_iff] at hnone
      exact classifyReadPath_inside (by decide) (by simpa [hin] using hread) hnone
    · simp [hdup] at hdigits
    · simp [hin, hnull] at hdiscard
    · by_contra hout
      simp [hout] at hnone

/-- The text of the project root, that of `p` and those of the dangling links that `p` ends in all
lead where their resolution does, within the limit on links. -/
def textual (host : Host) (projectRoot p : String) : Bool :=
  dotsLexical host.fs symloopMax (start host.cwd projectRoot) (components projectRoot) &&
    dotsLexical host.fs symloopMax (start (host.root projectRoot) p) (components p) &&
    chainLexical host.fs symloopMax (resolve (host.root projectRoot) p) &&
    (isAbsolute p || (walk host.fs symloopMax (start host.cwd projectRoot)
      (components projectRoot ++ components p)).isSome)

theorem components_ne_nil (p : String) : components p ≠ [] := by
  simp [components, List.splitOn_ne_nil]

theorem cwd_names (host : Host) : ∀ name ∈ host.cwd, isName name = true :=
  names_of_object (Option.isSome_of_eq_some host.cwd_directory)

/-- The text of the project root leads to the directory that a process enters for it. -/
theorem root_resolves {root : List String} {m : ℕ} (hm : m ≤ symloopMax)
    (h : Resolves host.fs (start host.cwd projectRoot) (components projectRoot) m (.directory root))
    (hdots : dotsLexical host.fs symloopMax (start host.cwd projectRoot)
      (components projectRoot) = true) :
    ∃ k ≤ m, Resolves host.fs [] (host.root projectRoot) k (.directory root) := by
  obtain ⟨k, hk, hcwd⟩ := start_resolves projectRoot (resolves_self host.cwd_directory)
  obtain ⟨l, hl, hroot⟩ :=
    hcwd.lexical (start_names projectRoot host.cwd_names) h (by omega) hdots
  exact ⟨l, by omega, hroot⟩

/-- What an allowed path opens is in the physical project root, where its text leads to it. -/
theorem opened_inside (host : Host) (projectRoot p : String) (access : Access) {root : List String}
    (hroot : host.projectDir projectRoot = some (.directory root)) {place : Place}
    (hopen : host.opens root p = some place) (hallowed : host.allows projectRoot p access = true)
    (htextual : host.textual projectRoot p = true) : root <+: place.path := by
  simp only [textual, Bool.and_eq_true] at htextual
  obtain ⟨⟨⟨hrootDots, hdots⟩, hchain⟩, hlinks⟩ := htextual
  have hrootNames : ∀ name ∈ host.root projectRoot, isName name = true :=
    lexical_names (start_names projectRoot host.cwd_names)
  obtain ⟨m, hm, hdir⟩ := walk_sound hroot
  obtain ⟨n, hn, hplace⟩ := walk_sound hopen
  -- Where `p` is taken from, by the text and by the system.
  obtain ⟨k, l, hsum, hstart, hwalk⟩ : ∃ k l, k + l ≤ symloopMax ∧
      Resolves host.fs [] (start (host.root projectRoot) p) k (.directory (start root p)) ∧
      Resolves host.fs (start root p) (components p) l place := by
    by_cases habs : isAbsolute p = true
    · refine ⟨0, n, by omega, ?_, hplace⟩
      simp only [start, habs, if_true]
      exact .done []
    · obtain ⟨place', hjoined⟩ := Option.isSome_iff_exists.1 (by simpa [habs] using hlinks)
      obtain ⟨N, hN, hres⟩ := walk_sound hjoined
      obtain ⟨d, m', l, hdir', hplace', hsum⟩ := hres.split (components_ne_nil p)
      obtain rfl := Place.directory.inj (hdir'.unique hdir)
      obtain ⟨k, hk, hbase⟩ := root_resolves (by omega) hdir' hrootDots
      simp only [start, habs] at hplace ⊢
      exact ⟨k, l, by omega, hbase, hplace'.unique hplace ▸ hplace'⟩
  obtain ⟨j, hj, habsolute⟩ := hstart.lexical (start_names p hrootNames) hwalk hsum hdots
  obtain ⟨i, hi, hrootPath⟩ := root_resolves hm hdir hrootDots
  have hphysical : physicalPath host.fs (resolve (host.root projectRoot) p) = place.path :=
    physicalPath_place (lexical_names (start_names p hrootNames)) habsolute (by omega) hchain
  have hreal : realpath host.fs symloopMax (host.root projectRoot) = some root :=
    realpath_place hrootPath (by omega)
  have hphysicalRoot : physicalPath host.fs (host.root projectRoot) = root :=
    physicalPath_place hrootNames hrootPath (by omega) (chainLexical_found hreal)
  have hinside := allows_inside hallowed
  rw [isInside, Bool.and_eq_true, hphysical, hphysicalRoot] at hinside
  exact isInsideLexical_prefix hinside.2

end Host

/-- A project with a link to a directory outside it and one to a directory of its own. -/
def linkedHost : Host where
  fs := .ofEntries [(["etc"], .directory), (["etc", "ssl"], .directory), (["etc", "passwd"], .file),
    (["proj"], .directory), (["proj", "src"], .directory), (["proj", "a.txt"], .file),
    (["proj", "src", "b.txt"], .file), (["proj", "certs"], .link "/etc/ssl"),
    (["proj", "lib"], .link "src")] (by decide +kernel)
  cwd := ["proj"]
  cwd_directory := by decide +kernel

theorem opened_inside_plain :
    ["proj"] <+: ["proj", "a.txt"] ∧ ["proj"] <+: ["proj", "src", "b.txt"] := by
  have hdir : linkedHost.projectDir "/proj" = some (.directory ["proj"]) := by decide +kernel
  constructor
  · exact linkedHost.opened_inside "/proj" "src/../a.txt" (.fileTool "read" "read") hdir
      (show linkedHost.opens ["proj"] "src/../a.txt" = some (.file ["proj", "a.txt"]) by
        decide +kernel)
      (by decide +kernel) (by decide +kernel)
  · exact linkedHost.opened_inside "/proj" "lib/b.txt" (.readCommand "cat") hdir
      (show linkedHost.opens ["proj"] "lib/b.txt" = some (.file ["proj", "src", "b.txt"]) by
        decide +kernel)
      (by decide +kernel) (by decide +kernel)

/-- `cat certs/../passwd` is allowed, and the `..` is taken from where the link leads. -/
theorem opened_outside : ¬ ∀ (host : Host) (projectRoot p : String) (access : Access)
    (root : List String) (place : Place), host.projectDir projectRoot = some (.directory root) →
    host.opens root p = some place → host.allows projectRoot p access = true →
    root <+: place.path := by
  intro h
  have hinside := h linkedHost "/proj" "certs/../passwd" (.readCommand "cat") ["proj"]
    (.file ["etc", "passwd"]) (by decide +kernel) (by decide +kernel) (by decide +kernel)
  exact absurd hinside (by decide)

end Wazir.Policy
