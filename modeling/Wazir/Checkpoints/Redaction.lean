import Mathlib
import Wazir.Checkpoints.Restore

/-! What a handoff redacts of a text (`redactSecrets` of `services/handoffService.ts`), and that nothing
is left that the check of a handoff finds. -/

namespace Wazir.Checkpoints

open JsValue

/-! One match. -/

def secretWords : List (List Char) := secretNames ++ ["bearer".toList]

/-- `[^\s,;'"`]` -/
def isSecretChar (c : Char) : Bool := !isWhiteSpace c && c.toNat ∉ [44, 59, 39, 34, 96]

/-- What follows the secret after a word. -/
def afterValue (cs : List Char) : Option (List Char) :=
  match cs.dropWhile isWhiteSpace with
  | c :: cs =>
    let value := cs.dropWhile isWhiteSpace
    if (c = ':' || c = '=') && value.head?.any isSecretChar then some (value.dropWhile isSecretChar)
    else none
  | [] => none

/-- What follows a match of `SECRET_PATTERN` at the start of a text. -/
def secretMatch (cs : List Char) : Option (List Char) :=
  secretWords.findSome? fun word => (dropWord word cs).bind afterValue

def marker : List Char := "[REDACTED]".toList

/-- `text.replace(SECRET_PATTERN, '[REDACTED]')`, for a text of at most so many characters. -/
def redactFrom : ℕ → List Char → List Char
  | 0, cs => cs
  | _ + 1, [] => []
  | fuel + 1, c :: cs =>
    match secretMatch (c :: cs) with
    | some rest => marker ++ redactFrom fuel rest
    | none => c :: redactFrom fuel cs

def redactChars (cs : List Char) : List Char := redactFrom cs.length cs

/-- `redactSecrets` -/
def redact (input : String) : String := String.ofList (redactChars input.toList)

example : redact "set Api_Key: abc, bearer =x;token:" = "set [REDACTED], [REDACTED];token:" := by
  decide

mutual
/-- `redactUnknown` -/
def redactUnknown : JsValue → JsValue
  | .str s => .str (redact s)
  | .arr items => .arr (redactItems items)
  | .obj fields => .obj (redactFields fields)
  | v => v
def redactItems : List JsValue → List JsValue
  | [] => []
  | v :: rest => redactUnknown v :: redactItems rest
/-- A member named as the prototype does not become one. -/
def redactFields : List (String × JsValue) → List (String × JsValue)
  | [] => []
  | (k, v) :: rest =>
    let redacted := if secretKey k && v.string.isSome then .str "[REDACTED]" else redactUnknown v
    if k = "__proto__" then redactFields rest else (k, redacted) :: redactFields rest
end

/-! The text is read from the left. -/

theorem dropWord_nil (cs : List Char) : dropWord [] cs = some cs := rfl

theorem dropWord_end (w : Char) (word : List Char) : dropWord (w :: word) [] = none := by
  rw [dropWord]

theorem dropWord_dash (word : List Char) (c : Char) (cs : List Char) :
    dropWord ('-' :: word) (c :: cs) =
      if c = '-' || c = '_' then dropWord word cs else dropWord word (c :: cs) := rfl

theorem dropWord_letter {w : Char} (h : w ≠ '-') (word : List Char) (c : Char) (cs : List Char) :
    dropWord (w :: word) (c :: cs) = if c.toLower = w then dropWord word cs else none := by
  rw [dropWord]
  exact h

theorem dropWord_length {word cs rest : List Char} (h : dropWord word cs = some rest) :
    rest.length ≤ cs.length := by
  induction word generalizing cs with
  | nil =>
    rw [dropWord_nil] at h
    rw [Option.some.inj h]
  | cons w word ih =>
    cases cs with
    | nil =>
      rw [dropWord_end] at h
      cases h
    | cons c cs =>
      by_cases hw : w = '-'
      · subst hw
        rw [dropWord_dash] at h
        split_ifs at h
        · exact (ih h).trans (by simp)
        · exact ih h
      · rw [dropWord_letter hw] at h
        split_ifs at h
        exact (ih h).trans (by simp)

theorem dropWhile_length (p : Char → Bool) (cs : List Char) : (cs.dropWhile p).length ≤ cs.length :=
  (List.dropWhile_sublist p).length_le

variable {cs rest : List Char}

theorem afterValue_length (h : afterValue cs = some rest) :
    rest.length < cs.length := by
  rw [afterValue] at h
  have hspace := dropWhile_length isWhiteSpace cs
  cases hcs : cs.dropWhile isWhiteSpace with
  | nil =>
    rw [hcs] at h
    cases h
  | cons c tail =>
    rw [hcs] at h hspace
    simp only at h
    split_ifs at h
    cases h
    have hvalue := dropWhile_length isWhiteSpace tail
    have hrest := dropWhile_length isSecretChar (tail.dropWhile isWhiteSpace)
    simp only [List.length_cons] at hspace
    omega

theorem secretMatch_some (h : secretMatch cs = some rest) :
    ∃ word ∈ secretWords, ∃ after, dropWord word cs = some after ∧ afterValue after = some rest := by
  obtain ⟨word, hword, hmatch⟩ := List.exists_of_findSome?_eq_some h
  obtain ⟨after, hafter, hrest⟩ := Option.bind_eq_some_iff.mp hmatch
  exact ⟨word, hword, after, hafter, hrest⟩

theorem secretMatch_length (h : secretMatch cs = some rest) :
    rest.length < cs.length := by
  obtain ⟨word, -, after, hafter, hrest⟩ := secretMatch_some h
  exact (afterValue_length hrest).trans_le (dropWord_length hafter)

theorem redactFrom_cons (fuel : ℕ) (c : Char) (cs : List Char) :
    redactFrom (fuel + 1) (c :: cs) = match secretMatch (c :: cs) with
      | some rest => marker ++ redactFrom fuel rest
      | none => c :: redactFrom fuel cs := rfl

theorem redactFrom_fuel {fuel : ℕ} {cs : List Char} (h : cs.length ≤ fuel) :
    redactFrom fuel cs = redactChars cs := by
  have hmore : ∀ (n m : ℕ) (cs : List Char), cs.length ≤ n → cs.length ≤ m →
      redactFrom n cs = redactFrom m cs := by
    intro n
    induction n with
    | zero =>
      intro m cs hn _
      rw [List.eq_nil_of_length_eq_zero (Nat.le_zero.mp hn)]
      cases m <;> rfl
    | succ n ih =>
      intro m cs hn hm
      cases cs with
      | nil => cases m <;> rfl
      | cons c cs =>
        cases m with
        | zero => simp at hm
        | succ m =>
          simp only [List.length_cons, Nat.add_le_add_iff_right] at hn hm
          rw [redactFrom_cons, redactFrom_cons]
          cases hmatch : secretMatch (c :: cs) with
          | none => simp only [ih m cs hn hm]
          | some rest =>
            have hlength := secretMatch_length hmatch
            simp only [List.length_cons] at hlength
            simp only [ih m rest (by omega) (by omega)]
  exact hmore fuel cs.length cs h le_rfl

theorem redactChars_match (h : secretMatch cs = some rest) :
    redactChars cs = marker ++ redactChars rest := by
  have hlength := secretMatch_length h
  cases cs with
  | nil => simp at hlength
  | cons c tail =>
    rw [redactChars, List.length_cons, redactFrom_cons, h]
    simp only [List.length_cons] at hlength
    simp only [redactFrom_fuel (show rest.length ≤ tail.length by omega)]

theorem redactChars_copy {c : Char} {cs : List Char} (h : secretMatch (c :: cs) = none) :
    redactChars (c :: cs) = c :: redactChars cs := by
  rw [redactChars, List.length_cons, redactFrom_cons, h]
  rfl

/-! Nothing is left. -/

theorem secretWords_cons {word : List Char} (h : word ∈ secretWords) :
    ∃ w rest, word = w :: rest ∧ w ∈ "atspcb".toList := by
  have hall : ∀ word ∈ secretWords, word.head?.any fun w => w ∈ "atspcb".toList := by decide
  have hhead := hall word h
  cases word with
  | nil => cases hhead
  | cons w rest => exact ⟨w, rest, rfl, by simpa using hhead⟩

/-- A match begins with the first letter of a word. -/
theorem secretMatch_head (h : secretMatch cs = some rest) :
    ∃ c tail, cs = c :: tail ∧ c.toLower ∈ "atspcb".toList := by
  obtain ⟨word, hword, after, hafter, -⟩ := secretMatch_some h
  obtain ⟨w, letters, rfl, hw⟩ := secretWords_cons hword
  have hdash : w ≠ '-' := by
    rintro rfl
    revert hw
    decide
  cases cs with
  | nil =>
    rw [dropWord_end] at hafter
    cases hafter
  | cons c tail =>
    rw [dropWord_letter hdash] at hafter
    split_ifs at hafter with hc
    exact ⟨c, tail, rfl, hc ▸ hw⟩

/-- Neither a separator nor white space begins a match. -/
theorem secretMatch_none {c : Char} {cs : List Char} (h : c.toLower ∉ "atspcb".toList) :
    secretMatch (c :: cs) = none := by
  cases hmatch : secretMatch (c :: cs) with
  | none => rfl
  | some rest =>
    obtain ⟨_, _, heq, hc⟩ := secretMatch_head hmatch
    cases heq
    exact absurd hc h

/-- What is left of a text begins as the text did, or with the marker. -/
theorem redactChars_cons {c : Char} {cs out : List Char} (h : redactChars cs = c :: out) (hc : c ≠ '[') :
    ∃ tail, cs = c :: tail ∧ secretMatch cs = none ∧ out = redactChars tail := by
  cases hmatch : secretMatch cs with
  | some rest =>
    rw [redactChars_match hmatch] at h
    exact absurd (List.cons.inj h).1.symm hc
  | none =>
    cases cs with
    | nil => cases h
    | cons c' tail =>
      rw [redactChars_copy hmatch] at h
      obtain ⟨rfl, rfl⟩ := List.cons.inj h
      exact ⟨tail, rfl, rfl, rfl⟩

theorem redactChars_head {cs tail : List Char} (h : redactChars cs = '[' :: tail) :
    cs.head?.any (fun c => c = '-' || c = '_') = false := by
  cases hmatch : secretMatch cs with
  | none =>
    cases cs with
    | nil => cases h
    | cons c rest =>
      rw [redactChars_copy hmatch] at h
      obtain ⟨rfl, -⟩ := List.cons.inj h
      rfl
  | some rest =>
    obtain ⟨c, rest', rfl, hc⟩ := secretMatch_head hmatch
    have hletter : c ≠ '-' ∧ c ≠ '_' := by
      constructor <;> rintro rfl <;> revert hc <;> decide
    simp [hletter]

/-- A word in what is left was a word of the text. -/
theorem dropWord_redacted {word cs after : List Char} (hword : '[' ∉ word)
    (h : dropWord word (redactChars cs) = some after) :
    ∃ rest, dropWord word cs = some rest ∧ after = redactChars rest := by
  induction word generalizing cs with
  | nil =>
    rw [dropWord_nil] at h
    exact ⟨cs, dropWord_nil cs, (Option.some.inj h).symm⟩
  | cons w word ih =>
    obtain ⟨hw, hletters⟩ : '[' ≠ w ∧ '[' ∉ word := by simpa using hword
    cases hcs : redactChars cs with
    | nil =>
      rw [hcs, dropWord_end] at h
      cases h
    | cons c out =>
      by_cases hdash : w = '-'
      · subst hdash
        rw [hcs, dropWord_dash] at h
        by_cases hmarker : c = '['
        · subst hmarker
          rw [if_neg (by decide), ← hcs] at h
          obtain ⟨rest, hrest, rfl⟩ := ih hletters h
          have hhead := redactChars_head hcs
          cases cs with
          | nil => cases hcs
          | cons c' tail =>
            rw [dropWord_dash, if_neg (by simpa using hhead)]
            exact ⟨rest, hrest, rfl⟩
        · obtain ⟨tail, rfl, hmatch, rfl⟩ := redactChars_cons hcs hmarker
          rw [dropWord_dash]
          split_ifs at h ⊢ with hc
          · exact ih hletters h
          · exact ih hletters (hcs ▸ h)
      · rw [hcs, dropWord_letter hdash] at h
        split_ifs at h with hc
        have hmarker : c ≠ '[' := by
          rintro rfl
          exact hw hc
        obtain ⟨tail, rfl, hmatch, rfl⟩ := redactChars_cons hcs hmarker
        rw [dropWord_letter hdash, if_pos hc]
        exact ih hletters h

theorem firstLetter_range {c : Char} (h : c.toLower ∈ "atspcb".toList) :
    65 ≤ c.toNat ∧ c.toNat ≤ 90 ∨ 97 ≤ c.toNat ∧ c.toNat ≤ 122 := by
  by_cases hupper : c.val ≥ 'A'.val ∧ c.val ≤ 'Z'.val
  · exact .inl ⟨UInt32.le_iff_toNat_le.mp hupper.1, UInt32.le_iff_toNat_le.mp hupper.2⟩
  · rw [Char.toLower, dif_neg hupper] at h
    have hletters : "atspcb".toList.all (fun c => 97 ≤ c.toNat ∧ c.toNat ≤ 122) = true := by decide
    exact .inr (of_decide_eq_true (List.all_eq_true.mp hletters c h))

theorem isWhiteSpace_head {c : Char} (h : isWhiteSpace c = true) : c.toLower ∉ "atspcb".toList := by
  intro hc
  have hrange := firstLetter_range hc
  revert h
  simp [isWhiteSpace, isLineTerminator]
  omega

/-- White space is copied, and the marker is none. -/
theorem dropWhile_redacted (cs : List Char) :
    (redactChars cs).dropWhile isWhiteSpace = redactChars (cs.dropWhile isWhiteSpace) := by
  induction cs with
  | nil => rfl
  | cons c cs ih =>
    by_cases hc : isWhiteSpace c = true
    · rw [redactChars_copy (secretMatch_none (isWhiteSpace_head hc)), List.dropWhile_cons_of_pos hc,
        List.dropWhile_cons_of_pos hc, ih]
    · rw [List.dropWhile_cons_of_neg hc]
      cases hmatch : secretMatch (c :: cs) with
      | none => rw [redactChars_copy hmatch, List.dropWhile_cons_of_neg hc]
      | some rest =>
        rw [redactChars_match hmatch]
        rfl

theorem secretValue_redacted {cs : List Char} (h : secretValue (redactChars cs) = true) :
    secretValue cs = true := by
  rw [secretValue, dropWhile_redacted] at h
  cases hcs : redactChars (cs.dropWhile isWhiteSpace) with
  | nil =>
    rw [hcs] at h
    cases h
  | cons c out =>
    rw [hcs] at h
    simp only [Bool.and_eq_true, Bool.or_eq_true, decide_eq_true_eq] at h
    obtain ⟨hsep, hvalue⟩ := h
    have hmarker : c ≠ '[' := by
      rintro rfl
      revert hsep
      decide
    obtain ⟨tail, hspace, -, rfl⟩ := redactChars_cons hcs hmarker
    rw [secretValue, hspace]
    simp only [Bool.and_eq_true, Bool.or_eq_true, decide_eq_true_eq]
    refine ⟨hsep, ?_⟩
    rw [dropWhile_redacted] at hvalue
    cases hvalue' : tail.dropWhile isWhiteSpace with
    | nil =>
      rw [hvalue'] at hvalue
      cases hvalue
    | cons v rest =>
      rw [hvalue'] at hvalue
      cases hmatch : secretMatch (v :: rest) with
      | none =>
        rw [redactChars_copy hmatch] at hvalue
        exact hvalue
      | some after =>
        obtain ⟨_, _, heq, hv⟩ := secretMatch_head hmatch
        cases heq
        have hrange := firstLetter_range hv
        simp
        omega

/-- A text matches at its start. -/
def secretHere (cs : List Char) : Bool :=
  secretWords.any fun word => (dropWord word cs).any secretValue

theorem secretText_eq (s : String) : secretText s = s.toList.tails.any secretHere := rfl

/-- The first character of a value is not white space: that was dropped. -/
theorem head_isSecretChar (cs : List Char) : (cs.dropWhile isWhiteSpace).head?.any isSecretChar =
    (cs.dropWhile isWhiteSpace).head?.any fun c => c.toNat ∉ [44, 59, 39, 34, 96] := by
  cases hcs : cs.dropWhile isWhiteSpace with
  | nil => rfl
  | cons c rest =>
    have hspace : isWhiteSpace c = false := by
      have hhead := List.head?_dropWhile_not isWhiteSpace cs
      rw [hcs] at hhead
      simpa using hhead
    simp [isSecretChar, hspace]

theorem afterValue_isSome (cs : List Char) : (afterValue cs).isSome = secretValue cs := by
  rw [afterValue, secretValue]
  cases cs.dropWhile isWhiteSpace with
  | nil => rfl
  | cons c rest =>
    simp only [head_isSecretChar]
    split_ifs with h
    · exact h.symm
    · exact (Bool.eq_false_iff.mpr h).symm

theorem secretMatch_isSome (cs : List Char) : (secretMatch cs).isSome = secretHere cs := by
  rw [secretMatch, secretHere, List.isSome_findSome?]
  congr 1
  funext word
  cases dropWord word cs with
  | none => rfl
  | some after => exact afterValue_isSome after

theorem secretHere_redacted {cs : List Char} (h : secretHere (redactChars cs) = true) :
    secretHere cs = true := by
  obtain ⟨word, hword, hmatch⟩ := List.any_eq_true.mp h
  cases hafter : dropWord word (redactChars cs) with
  | none =>
    rw [hafter] at hmatch
    cases hmatch
  | some after =>
    have hletters : ∀ word ∈ secretWords, '[' ∉ word := by decide
    obtain ⟨rest, hrest, rfl⟩ := dropWord_redacted (hletters word hword) hafter
    rw [hafter] at hmatch
    refine List.any_eq_true.mpr ⟨word, hword, ?_⟩
    rw [hrest]
    exact secretValue_redacted hmatch

theorem secretHere_marker {text : List Char} (h : text.tails.any secretHere = false) :
    (marker ++ text).tails.any secretHere = false := by
  exact h

/-- Nothing that is left matches. -/
theorem secretText_redact (s : String) : secretText (redact s) = false := by
  have hall : ∀ (n : ℕ) (cs : List Char), cs.length ≤ n →
      (redactChars cs).tails.any secretHere = false := by
    intro n
    induction n with
    | zero =>
      intro cs hn
      rw [List.eq_nil_of_length_eq_zero (Nat.le_zero.mp hn)]
      rfl
    | succ n ih =>
      intro cs hn
      cases hmatch : secretMatch cs with
      | some rest =>
        have hlength := secretMatch_length hmatch
        rw [redactChars_match hmatch]
        exact secretHere_marker (ih rest (by omega))
      | none =>
        cases cs with
        | nil => rfl
        | cons c tail =>
          have hhere : secretHere (c :: redactChars tail) = false := by
            rw [← redactChars_copy hmatch, Bool.eq_false_iff]
            intro hhere
            have := secretHere_redacted hhere
            rw [← secretMatch_isSome, hmatch] at this
            cases this
          rw [redactChars_copy hmatch, List.tails_cons, List.any_cons, hhere, Bool.false_or]
          exact ih tail (by simpa using hn)
  rw [secretText_eq, redact, String.toList_ofList]
  exact hall s.toList.length s.toList le_rfl

/-! Texts that are no secrets. -/

theorem dropWord_mem {word cs rest : List Char} (h : dropWord word cs = some rest) :
    (∀ c ∈ rest, c ∈ cs) ∧ ∀ w ∈ word, w ≠ '-' → ∃ c ∈ cs, c.toLower = w := by
  induction word generalizing cs with
  | nil =>
    rw [dropWord_nil] at h
    obtain rfl := Option.some.inj h
    exact ⟨fun c hc => hc, List.forall_mem_nil _⟩
  | cons w word ih =>
    cases cs with
    | nil =>
      rw [dropWord_end] at h
      cases h
    | cons c cs =>
      have hmore : ∀ {P : Char → Prop}, (∃ c ∈ cs, P c) → ∃ c' ∈ c :: cs, P c' := by
        rintro P ⟨c', hc', hP⟩
        exact ⟨c', List.mem_cons_of_mem c hc', hP⟩
      by_cases hw : w = '-'
      · subst hw
        rw [dropWord_dash] at h
        split_ifs at h with hc
        · obtain ⟨hrest, hletters⟩ := ih h
          refine ⟨fun x hx => List.mem_cons_of_mem c (hrest x hx), fun w hw hdash => ?_⟩
          obtain rfl | hw := List.mem_cons.mp hw
          · exact absurd rfl hdash
          · exact hmore (hletters w hw hdash)
        · obtain ⟨hrest, hletters⟩ := ih h
          refine ⟨hrest, fun w hw hdash => ?_⟩
          obtain rfl | hw := List.mem_cons.mp hw
          · exact absurd rfl hdash
          · exact hletters w hw hdash
      · rw [dropWord_letter hw] at h
        split_ifs at h with hc
        obtain ⟨hrest, hletters⟩ := ih h
        refine ⟨fun x hx => List.mem_cons_of_mem c (hrest x hx), fun w' hw' hdash => ?_⟩
        obtain rfl | hw' := List.mem_cons.mp hw'
        · exact ⟨c, List.mem_cons_self, hc⟩
        · exact hmore (hletters w' hw' hdash)

theorem secretText_mem {s : String} (h : secretText s = true) :
    ∃ word ∈ secretWords, (∀ w ∈ word, w ≠ '-' → ∃ c ∈ s.toList, c.toLower = w) ∧
      ∃ c ∈ s.toList, c = ':' ∨ c = '=' := by
  rw [secretText_eq] at h
  obtain ⟨cs, hcs, hhere⟩ := List.any_eq_true.mp h
  have hsuffix := (List.mem_tails _ _).mp hcs
  obtain ⟨word, hword, hmatch⟩ := List.any_eq_true.mp hhere
  cases hafter : dropWord word cs with
  | none =>
    rw [hafter] at hmatch
    cases hmatch
  | some after =>
    obtain ⟨hrest, hletters⟩ := dropWord_mem hafter
    rw [hafter, Option.any_some, secretValue] at hmatch
    refine ⟨word, hword, fun w hw hdash => ?_, ?_⟩
    · obtain ⟨c, hc, hlower⟩ := hletters w hw hdash
      exact ⟨c, hsuffix.subset hc, hlower⟩
    · cases hspace : after.dropWhile isWhiteSpace with
      | nil =>
        rw [hspace] at hmatch
        cases hmatch
      | cons c tail =>
        rw [hspace] at hmatch
        simp only [Bool.and_eq_true, Bool.or_eq_true, decide_eq_true_eq] at hmatch
        have hc : c ∈ after := (List.dropWhile_sublist isWhiteSpace).subset (hspace ▸ List.mem_cons_self)
        exact ⟨c, hsuffix.subset (hrest c hc), hmatch.1⟩

/-- A secret follows a colon or an equals sign. -/
theorem secretText_plain {s : String} (h : ∀ c ∈ s.toList, c ≠ ':' ∧ c ≠ '=') : secretText s = false := by
  by_contra hsecret
  obtain ⟨-, -, -, c, hc, hsep⟩ := secretText_mem (by simpa using hsecret)
  exact hsep.elim (h c hc).1 (h c hc).2

/-- Every word has an `e` or an `o`. -/
theorem secretText_vowels {s : String} (h : ∀ c ∈ s.toList, c.toLower ≠ 'e' ∧ c.toLower ≠ 'o') :
    secretText s = false := by
  by_contra hsecret
  obtain ⟨word, hword, hletters, -⟩ := secretText_mem (by simpa using hsecret)
  have hall : ∀ word ∈ secretWords, 'e' ∈ word ∨ 'o' ∈ word := by decide
  rcases hall word hword with he | ho
  · obtain ⟨c, hc, hlower⟩ := hletters 'e' he (by decide)
    exact (h c hc).1 hlower
  · obtain ⟨c, hc, hlower⟩ := hletters 'o' ho (by decide)
    exact (h c hc).2 hlower

theorem containsUnredactedSecret_redactUnknown (v : JsValue) :
    containsUnredactedSecret (redactUnknown v) = false := by
  induction v using JsValue.inductionOn with
  | str s => exact secretText_redact s
  | arr items ih =>
    rw [redactUnknown, containsUnredactedSecret]
    induction items with
    | nil => rfl
    | cons v rest ihrest =>
      rw [redactItems, secretItems, ih v List.mem_cons_self, Bool.false_or]
      exact ihrest fun v hv => ih v (List.mem_cons_of_mem _ hv)
  | obj fields ih =>
    rw [redactUnknown, containsUnredactedSecret]
    induction fields with
    | nil => rfl
    | cons kv rest ihrest =>
      obtain ⟨k, v⟩ := kv
      have hrest := ihrest fun kv hkv => ih kv (List.mem_cons_of_mem _ hkv)
      rw [redactFields]
      by_cases hproto : k = "__proto__"
      · rw [if_pos hproto]
        exact hrest
      · rw [if_neg hproto, secretFields, hrest, Bool.or_false]
        by_cases hkey : (secretKey k && v.string.isSome) = true
        · rw [if_pos hkey]
          simp [string, containsUnredactedSecret, show secretText "[REDACTED]" = false from rfl]
        · rw [if_neg hkey, ih _ List.mem_cons_self, Bool.or_false]
          by_cases hsecret : secretKey k = true
          · cases v with
            | str s => simp [hsecret, string] at hkey
            | _ => simp [redactUnknown, string]
          · simp [hsecret]
  | _ => rfl

end Wazir.Checkpoints
