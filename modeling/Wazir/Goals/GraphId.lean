import Mathlib.Data.List.Chain
import Mathlib.Tactic
import Wazir.Goals.Contracts

/-! Graph ids (`deriveGraphId`): the slug of the project and the slug of the graph's name,
joined by two dashes. A slug begins with a letter or digit and has no two dashes in a row, so
the pair of slugs can be read back from an id. -/

namespace Wazir.Goals

/-- `[a-z0-9]`. -/
def slugChar (c : Char) : Bool := ('a' ≤ c && c ≤ 'z') || ('0' ≤ c && c ≤ '9')

/-- `toLowerCase` as far as a slug can tell: of the characters outside ASCII only the dotted
capital I and the Kelvin sign lower to anything in ASCII. -/
def lowerChar (c : Char) : List Char :=
  if 'A' ≤ c ∧ c ≤ 'Z' then [Char.ofNat (c.toNat + 32)]
  else if c.toNat = 0x130 then ['i', Char.ofNat 0x307]
  else if c.toNat = 0x212A then ['k']
  else [c]

def toLowerCase (s : List Char) : List Char := s.flatMap lowerChar

/-- `.replace(/[^a-z0-9]+/g, '-')`; `inRun` says that the dash of the present run is out. -/
def dashed : Bool → List Char → List Char
  | _, [] => []
  | inRun, c :: rest =>
    if slugChar c then c :: dashed false rest
    else if inRun then dashed true rest
    else '-' :: dashed true rest

/-- `.replace(/^-+|-+$/g, '')`. -/
def trimDashes (s : List Char) : List Char :=
  ((s.dropWhile (· = '-')).reverse.dropWhile (· = '-')).reverse

def slugChars (s : String) : List Char :=
  match (trimDashes (dashed false (toLowerCase s.toList))).take 60 with
  | [] => "graph".toList
  | c :: rest => c :: rest

def slug (s : String) : String := String.ofList (slugChars s)

/-- Deterministic graph id for (project, graph name). -/
def deriveGraphId (projectId : ProjectId) (name : String) : GraphId :=
  slug projectId ++ "--" ++ slug name

/-- `/^[A-Za-z0-9][A-Za-z0-9._-]{0,63}$/`. -/
def validProjectId (projectId : ProjectId) : Bool :=
  match projectId.toList with
  | [] => false
  | c :: rest => c.isAlphanum && rest.length ≤ 63 &&
      rest.all fun c => c.isAlphanum || c = '.' || c = '_' || c = '-'

/-- `/^[a-z0-9][a-z0-9._-]{0,127}$/`. -/
def validGraphId (graphId : GraphId) : Bool :=
  match graphId.toList with
  | [] => false
  | c :: rest => slugChar c && rest.length ≤ 127 &&
      rest.all fun c => slugChar c || c = '.' || c = '_' || c = '-'

/-- No two dashes in a row. -/
abbrev Spaced (s : List Char) : Prop := s.IsChain fun a b => ¬ (a = '-' ∧ b = '-')

theorem dashed_head {s : List Char} : (dashed true s).head? ≠ some '-' := by
  induction s with
  | nil => simp [dashed]
  | cons c rest ih =>
    unfold dashed
    split_ifs with hc
    · rintro h
      cases Option.some.inj h
      exact absurd hc (by decide)
    · exact ih
    · simp_all

theorem spaced_dashed (inRun : Bool) (s : List Char) : Spaced (dashed inRun s) := by
  induction s generalizing inRun with
  | nil => exact .nil
  | cons c rest ih =>
    unfold dashed
    split_ifs with hc hrun
    · refine List.isChain_cons.mpr ⟨fun b _ h => ?_, ih false⟩
      rw [h.1] at hc
      exact absurd hc (by decide)
    · exact ih true
    · refine List.isChain_cons.mpr ⟨fun b hb h => ?_, ih true⟩
      exact dashed_head (h.2 ▸ hb)

theorem mem_dashed {inRun : Bool} {s : List Char} {c : Char} (h : c ∈ dashed inRun s) :
    slugChar c ∨ c = '-' := by
  induction s generalizing inRun with
  | nil => cases h
  | cons d rest ih =>
    unfold dashed at h
    split_ifs at h with hd
    · rcases List.mem_cons.mp h with rfl | h
      · exact .inl hd
      · exact ih h
    · exact ih h
    · rcases List.mem_cons.mp h with rfl | h
      · exact .inr rfl
      · exact ih h

/-- What is left of a list after cutting dashes at its ends. -/
theorem trimDashes_within (s : List Char) : trimDashes s <:+: s := by
  unfold trimDashes
  have hend : ((s.dropWhile (· = '-')).reverse.dropWhile (· = '-')).reverse <+:
      s.dropWhile (· = '-') := by
    rw [← List.reverse_suffix, List.reverse_reverse]
    exact List.dropWhile_suffix _
  exact hend.isInfix.trans (List.dropWhile_suffix _).isInfix

theorem trimDashes_head (s : List Char) : (trimDashes s).head? ≠ some '-' := by
  intro h
  have hpre : trimDashes s <+: s.dropWhile (· = '-') := by
    unfold trimDashes
    rw [← List.reverse_suffix, List.reverse_reverse]
    exact List.dropWhile_suffix _
  have hfirst : (s.dropWhile (· = '-')).head? = some '-' := by
    obtain ⟨rest, hrest⟩ := hpre
    rw [← hrest, List.head?_append, h]
    rfl
  have := List.head?_dropWhile_not (· = '-') s
  rw [hfirst] at this
  simp at this

/-- The shape of a slug. -/
structure IsSlug (s : List Char) : Prop where
  nonempty : s ≠ []
  head : s.head? ≠ some '-'
  spaced : Spaced s
  chars : ∀ c ∈ s, slugChar c ∨ c = '-'
  short : s.length ≤ 60

theorem isSlug_slugChars (s : String) : IsSlug (slugChars s) := by
  set t := trimDashes (dashed false (toLowerCase s.toList)) with ht
  have hwithin : t.take 60 <:+: dashed false (toLowerCase s.toList) :=
    (List.take_prefix _ _).isInfix.trans (trimDashes_within _)
  unfold slugChars
  rw [← ht]
  split
  · exact ⟨by simp, by decide, by decide, by simp [slugChar], by decide⟩
  · rename_i c rest hcut
    refine ⟨by simp, ?_, ?_, fun d hd => ?_, ?_⟩
    · intro h
      have hhead : t.head? = some '-' := by
        rw [← List.take_append_drop 60 t, List.head?_append, hcut, h]
        rfl
      exact trimDashes_head _ hhead
    · rw [← hcut]
      exact List.IsChain.infix (spaced_dashed _ _) hwithin
    · exact mem_dashed (hwithin.subset (hcut ▸ hd))
    · rw [← hcut]
      simp

/-- The last two dashes in a row are the ones between the slugs. -/
theorem joined_inj {a b a' b' : List Char} (hb : IsSlug b) (hb' : IsSlug b')
    (h : a ++ ['-', '-'] ++ b = a' ++ ['-', '-'] ++ b') : a = a' ∧ b = b' := by
  have cut : ∀ {x y x' y' : List Char}, IsSlug y → IsSlug y' →
      (∃ t, x' = x ++ t ∧ ['-', '-'] ++ y = t ++ (['-', '-'] ++ y')) → x = x' ∧ y = y' := by
    rintro x y x' y' hy hy' ⟨t, rfl, ht⟩
    match t with
    | [] => exact ⟨(List.append_nil x).symm, by simpa using ht⟩
    | [d] =>
      simp only [List.cons_append, List.nil_append, List.cons.injEq] at ht
      exact absurd (by rw [ht.2.2]; rfl) hy.head
    | d :: d' :: t' =>
      simp only [List.cons_append, List.nil_append, List.cons.injEq] at ht
      have hsp : Spaced (t' ++ '-' :: '-' :: y') := ht.2.2 ▸ hy.spaced
      have htail := (List.isChain_append.mp hsp).2.1
      exact absurd ⟨rfl, rfl⟩ (List.isChain_cons_cons.mp htail).1
  rw [List.append_assoc, List.append_assoc, List.append_eq_append_iff] at h
  rcases h with ⟨t, ha, ht⟩ | ⟨t, ha, ht⟩
  · exact cut hb hb' ⟨t, ha, ht⟩
  · obtain ⟨h₁, h₂⟩ := cut hb' hb ⟨t, ha, ht⟩
    exact ⟨h₁.symm, h₂.symm⟩

/-- Two pairs share a graph id exactly when their slugs agree one by one. -/
theorem deriveGraphId_inj {p q : ProjectId} {m n : String} :
    deriveGraphId p m = deriveGraphId q n ↔ slug p = slug q ∧ slug m = slug n := by
  constructor
  · intro h
    have hlist := congrArg String.toList h
    simp only [deriveGraphId, slug, String.toList_append, String.toList_ofList] at hlist
    obtain ⟨h₁, h₂⟩ := joined_inj (isSlug_slugChars m) (isSlug_slugChars n) hlist
    exact ⟨by rw [slug, h₁, slug], by rw [slug, h₂, slug]⟩
  · rintro ⟨h₁, h₂⟩
    rw [deriveGraphId, h₁, h₂, deriveGraphId]

/-- A derived id passes the pattern that every read of a graph checks. -/
theorem validGraphId_derive (p : ProjectId) (m : String) : validGraphId (deriveGraphId p m) := by
  have hp := isSlug_slugChars p
  have hm := isSlug_slugChars m
  have htext : (deriveGraphId p m).toList = slugChars p ++ ['-', '-'] ++ slugChars m := by
    simp only [deriveGraphId, slug, String.toList_append, String.toList_ofList]
    rfl
  unfold validGraphId
  rw [htext]
  cases hs : slugChars p with
  | nil => exact absurd hs hp.nonempty
  | cons c rest =>
    rw [hs] at hp
    have hc : slugChar c := (hp.chars c (List.mem_cons_self ..)).resolve_right
      fun hd => hp.head (by rw [hd]; rfl)
    have hlen := hp.short
    have hlen' := hm.short
    have hall : ∀ d ∈ rest ++ (['-', '-'] ++ slugChars m), slugChar d ∨ d = '-' := by
      intro d hd
      rcases List.mem_append.mp hd with hd | hd
      · exact hp.chars d (List.mem_cons_of_mem _ hd)
      · rcases List.mem_append.mp hd with hd | hd
        · exact .inr (by simpa using hd)
        · exact hm.chars d hd
    simp only [List.cons_append, List.append_assoc, Bool.and_eq_true, decide_eq_true_eq,
      List.all_eq_true]
    refine ⟨⟨hc, ?_⟩, fun d hd => ?_⟩
    · simp only [List.length_append, List.length_cons, List.length_nil] at hlen ⊢
      omega
    · rcases hall d hd with h | h <;> simp [h]

end Wazir.Goals
