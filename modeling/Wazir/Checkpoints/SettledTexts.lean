import Wazir.Checkpoints.SettledValues

/-! Only settled values keep their digest: the text that is hashed tells the value. -/

namespace Wazir.Checkpoints

open JsValue

/-! Texts are read from the left. -/

variable {rest rest' : List Char}

theorem quoted_append_inj {s s' : String} (h : quoted s ++ rest = quoted s' ++ rest') :
    s = s' ∧ rest = rest' := by
  obtain ⟨units, hunits, hs⟩ := read_quoted s rest
  obtain ⟨units', hunits', hs'⟩ := read_quoted s' rest'
  have htail : s.toList.flatMap escapeChar ++ '"' :: rest = s'.toList.flatMap escapeChar ++ '"' :: rest' := by
    simpa [quoted] using h
  rw [htail, hunits'] at hunits
  obtain ⟨rfl, rfl⟩ := Prod.mk.inj (Option.some.inj hunits)
  exact ⟨hs.symm.trans hs', rfl⟩

theorem commaJoin_flatMap (piece : List Char) (pieces : List (List Char)) :
    ',' :: commaJoin (piece :: pieces) = (piece :: pieces).flatMap (',' :: ·) := by
  induction pieces generalizing piece with
  | nil => simp [commaJoin]
  | cons next rest ih =>
    rw [commaJoin, ih, List.flatMap_cons, List.flatMap_cons]
    simp

section Pieces

variable {α : Type} {close : Char} {kept : α → Bool} {before after : α → List Char} {P : α → Prop}

/-- Of the pieces between separators none is lost and each stays as it was. -/
theorem pieces_kept (hclose : close ≠ ',') {items : List α}
    (hkept : ∀ a ∈ items, kept a = true → ∀ r r', before a ++ r = after a ++ r' → P a ∧ r = r')
    (hlost : ∀ a ∈ items, kept a = false → ∀ b ∈ items, kept b = true → ∀ r r',
      before a ++ r ≠ after b ++ r') (h : (items.map before).flatMap (',' :: ·) ++ close :: rest =
      ((items.filter kept).map after).flatMap (',' :: ·) ++ close :: rest') :
    (∀ a ∈ items, kept a = true ∧ P a) ∧ rest = rest' := by
  induction items with
  | nil => exact ⟨List.forall_mem_nil _, (List.cons.inj h).2⟩
  | cons a items ih =>
    have hih := ih (fun b hb => hkept b (List.mem_cons_of_mem a hb))
      fun b hb hlostb c hc => hlost b (List.mem_cons_of_mem a hb) hlostb c (List.mem_cons_of_mem a hc)
    cases ha : kept a with
    | true =>
      rw [List.filter_cons_of_pos ha] at h
      simp only [List.map_cons, List.flatMap_cons, List.cons_append, List.append_assoc,
        List.cons.injEq, true_and] at h
      obtain ⟨hP, htail⟩ := hkept a List.mem_cons_self ha _ _ h
      obtain ⟨hall, hrest⟩ := hih htail
      exact ⟨List.forall_mem_cons.mpr ⟨⟨ha, hP⟩, hall⟩, hrest⟩
    | false =>
      rw [List.filter_cons_of_neg (by simp [ha])] at h
      cases hb : items.filter kept with
      | nil =>
        rw [hb] at h
        exact absurd (List.cons.inj h).1.symm hclose
      | cons b others =>
        have hmem : b ∈ items.filter kept := hb ▸ List.mem_cons_self
        obtain ⟨hitem, hkeptb⟩ := List.mem_filter.mp hmem
        rw [hb] at h
        simp only [List.map_cons, List.flatMap_cons, List.cons_append, List.append_assoc,
          List.cons.injEq, true_and] at h
        exact absurd h (hlost a List.mem_cons_self ha b (List.mem_cons_of_mem a hitem) hkeptb _ _)

variable (close kept before after P) in
theorem commaJoin_kept (hclose : close ≠ ',') {items : List α}
    (hkept : ∀ a ∈ items, kept a = true → ∀ r r', before a ++ r = after a ++ r' → P a ∧ r = r')
    (hlost : ∀ a ∈ items, kept a = false → ∀ b ∈ items, kept b = true → ∀ r r',
      before a ++ r ≠ after b ++ r')
    (hstart : ∀ a ∈ items, kept a = false → ∀ r r', before a ++ r ≠ close :: r')
    (h : commaJoin (items.map before) ++ close :: rest =
      commaJoin ((items.filter kept).map after) ++ close :: rest') :
    (∀ a ∈ items, kept a = true ∧ P a) ∧ rest = rest' := by
  cases items with
  | nil => exact ⟨List.forall_mem_nil _, (List.cons.inj h).2⟩
  | cons a items =>
    cases hb : (a :: items).filter kept with
    | nil =>
      have ha : kept a = false := by
        simpa using (List.filter_eq_nil_iff.mp hb) a List.mem_cons_self
      obtain ⟨tail, htail⟩ := commaJoin_start (before a) (items.map before)
      rw [hb, List.map_cons, htail, List.append_assoc] at h
      exact absurd h (hstart a List.mem_cons_self ha _ _)
    | cons b others =>
      refine pieces_kept hclose hkept hlost ?_
      rw [hb, List.map_cons, List.map_cons] at h
      rw [hb, List.map_cons, List.map_cons, ← commaJoin_flatMap, ← commaJoin_flatMap, List.cons_append,
        List.cons_append, h]

end Pieces

/-! A sort is stable, so what is left out may be left out before or after it. -/

section Stable

variable {α κ : Type} {cmp : κ → κ → Ordering} {key : α → κ}

theorem orderedInsert_first {a : α} {l : List α} (h : ∀ b ∈ l, (cmp (key a) (key b)).isLE) :
    l.orderedInsert (fun a b => cmp (key a) (key b) ≠ .gt) a = a :: l := by
  cases l with
  | nil => rfl
  | cons b rest =>
    exact List.orderedInsert_cons_of_le _ rest (Ordering.isLE_iff_ne_gt.mp (h b List.mem_cons_self))

theorem orderedInsert_filter [Std.TransCmp cmp] (p : α → Bool) (a : α) {l : List α}
    (h : l.Pairwise fun a b => (cmp (key a) (key b)).isLE) :
    (l.orderedInsert (fun a b => cmp (key a) (key b) ≠ .gt) a).filter p =
      if p a then (l.filter p).orderedInsert (fun a b => cmp (key a) (key b) ≠ .gt) a
      else l.filter p := by
  induction l with
  | nil => cases ha : p a <;> simp [ha]
  | cons b rest ih =>
    obtain ⟨hb, hrest⟩ := List.pairwise_cons.mp h
    by_cases hab : cmp (key a) (key b) ≠ .gt
    · have hfirst : ∀ c ∈ b :: rest, (cmp (key a) (key c)).isLE := by
        have hle := Ordering.isLE_iff_ne_gt.mpr hab
        exact List.forall_mem_cons.mpr ⟨hle, fun c hc => Std.TransCmp.isLE_trans hle (hb c hc)⟩
      rw [orderedInsert_first hfirst]
      split_ifs with ha
      · rw [List.filter_cons_of_pos ha,
          orderedInsert_first fun c hc => hfirst c (List.mem_of_mem_filter hc)]
      · rw [List.filter_cons_of_neg ha]
    · have hafter : ∀ l : List α, (b :: l).orderedInsert (fun a b => cmp (key a) (key b) ≠ .gt) a =
          b :: l.orderedInsert (fun a b => cmp (key a) (key b) ≠ .gt) a :=
        fun l => List.orderedInsert_of_not_le _ l hab
      rw [hafter]
      by_cases hpb : p b = true
      · rw [List.filter_cons_of_pos hpb, ih hrest, List.filter_cons_of_pos hpb, hafter]
        split_ifs <;> rfl
      · rw [List.filter_cons_of_neg hpb, ih hrest, List.filter_cons_of_neg hpb]

theorem sortBy_filter [Std.TransCmp cmp] (p : α → Bool) (l : List α) :
    (sortBy (fun a b => cmp (key a) (key b)) l).filter p =
      sortBy (fun a b => cmp (key a) (key b)) (l.filter p) := by
  induction l with
  | nil => rfl
  | cons a rest ih =>
    have hinsert : sortBy (fun a b => cmp (key a) (key b)) (a :: rest) =
        (sortBy (fun a b => cmp (key a) (key b)) rest).orderedInsert
          (fun a b => cmp (key a) (key b) ≠ .gt) a := rfl
    rw [hinsert, orderedInsert_filter p a (sortBy_pairwise key rest), ih]
    split_ifs with ha
    · rw [List.filter_cons_of_pos ha]
      rfl
    · rw [List.filter_cons_of_neg ha]

end Stable

/-- The text of a date under a secret's name is a secret. -/
theorem isoText_secret (t : Timestamp) : isoText t ≠ "[REDACTED]" ∧ isoText t ≠ "" := by
  constructor
  · intro heq
    have hchars := isoText_isoChars t
    rw [heq] at hchars
    revert hchars
    decide
  · simp [isoText]

theorem dateless_of_image {v : JsValue} (hvalid : validDates v = true)
    (h : containsUnredactedSecret (jsonImage v) = false) : dateless v = true := by
  induction v using JsValue.inductionOn with
  | arr items ih =>
    rw [validDates, validItems_eq, List.all_eq_true] at hvalid
    rw [jsonImage, containsUnredactedSecret, secretItems_eq, imageItems_eq, List.any_map,
      List.any_eq_false] at h
    rw [dateless, datelessItems_eq, List.all_eq_true]
    exact fun v hv => ih v hv (hvalid v hv) (by simpa using h v hv)
  | obj fields ih =>
    rw [validDates, validFields_eq, List.all_eq_true] at hvalid
    rw [jsonImage, containsUnredactedSecret, secretFields_eq, imageFields_eq, List.any_map,
      List.any_eq_false] at h
    rw [dateless, datelessFields_eq, List.all_eq_true]
    intro kv hkv
    obtain ⟨k, v⟩ := kv
    have hvalue := hvalid _ hkv
    have hdefined : v.isUndefined = false ∨ v = .undefined := by cases v <;> simp [isUndefined]
    rcases hdefined with hdefined | rfl
    · have hmember := h (k, v) (List.mem_filter.mpr ⟨hkv, by simp [hdefined]⟩)
      simp only [Function.comp_apply, secretMember, Bool.not_eq_true, Bool.or_eq_false_iff] at hmember
      rw [ih _ hkv hvalue hmember.2, Bool.and_true]
      cases v with
      | date d =>
        obtain ⟨t, rfl⟩ := Option.isSome_iff_exists.mp hvalue
        cases hkey : secretKey k with
        | false => simp [secretDate, hkey]
        | true =>
          rw [hkey] at hmember
          simp [jsonImage, string, isoText_secret t] at hmember
      | _ => simp [secretDate]
    · simp [secretDate, dateless]
  | _ => rfl

/-! The text that is hashed. -/

variable {kv : String × JsValue}

section Reload

variable {store : RevivingStore} {parseDate : String → JsDate}

/-- What the store keeps of the members. -/
def keptMember (store : RevivingStore) (kv : String × JsValue) : Bool :=
  match store with
  | .jsonFile => true
  | .postgres => kv.1 ∉ unsafeKeys

/-- The members that are hashed. -/
def hashedMembers (fields : List (String × JsValue)) : List (String × JsValue) :=
  sortKeys (fields.filter fun kv => !kv.2.isUndefined)

theorem canonicalText_obj (fields : List (String × JsValue)) : canonicalText (.obj fields) =
    '\x7b' :: (commaJoin ((hashedMembers fields).map fun kv =>
      hashedMember (kv.1, canonicalText kv.2)) ++ ['\x7d']) := by
  rw [canonicalText, canonicalMembers_eq, sortKeys_map, List.map_map]
  rfl

theorem reload_members (fields : List (String × JsValue)) : store.reload parseDate (.obj fields) =
    .obj (((fields.filter fun kv => !kv.2.isUndefined).filter (keptMember store)).map
      fun kv => (kv.1, reloadedMember store parseDate kv)) := by
  cases store with
  | jsonFile =>
    rw [RevivingStore.reload, jsonImage, reviveDatesInPlace, RevivingStore.reviveFields_map,
      imageFields_eq, List.map_map]
    have hall : (fields.filter fun kv => !kv.2.isUndefined).filter (keptMember .jsonFile) =
        fields.filter fun kv => !kv.2.isUndefined := List.filter_eq_self.mpr fun _ _ => rfl
    rw [hall]
    rfl
  | postgres =>
    rw [RevivingStore.reload, jsonImage, reviveDatesDeep, RevivingStore.reviveDeepFields_map,
      imageFields_eq, List.filter_map, List.map_map]
    congr 1
    refine List.map_congr_left fun kv hkv => ?_
    have hsafe : kv.1 ∉ unsafeKeys := by simpa using (List.mem_filter.mp hkv).2
    simp only [Function.comp_apply, reloadedMember, if_neg hsafe, RevivingStore.reload]

theorem reloadedMember_defined (h : kv.2.isUndefined = false) :
    (reloadedMember store parseDate kv).isUndefined = false := by
  rw [reloadedMember]
  split_ifs
  · exact image_defined h
  · exact reload_defined store parseDate kv.2

/-- The members that are hashed after a reload: those that are kept. -/
theorem hashedMembers_reload (fields : List (String × JsValue)) :
    hashedMembers (((fields.filter fun kv => !kv.2.isUndefined).filter (keptMember store)).map
      fun kv => (kv.1, reloadedMember store parseDate kv)) =
    ((hashedMembers fields).filter (keptMember store)).map
      fun kv => (kv.1, reloadedMember store parseDate kv) := by
  have hall : ∀ kv ∈ (fields.filter fun kv => !kv.2.isUndefined).filter (keptMember store),
      (!(reloadedMember store parseDate kv).isUndefined) = true := by
    intro kv hkv
    have hdefined := (List.mem_filter.mp (List.mem_of_mem_filter hkv)).2
    rw [reloadedMember_defined (by simpa using hdefined)]
    rfl
  have hdefined : (((fields.filter fun kv => !kv.2.isUndefined).filter (keptMember store)).map
      fun kv => (kv.1, reloadedMember store parseDate kv)).filter (fun kv => !kv.2.isUndefined) =
      ((fields.filter fun kv => !kv.2.isUndefined).filter (keptMember store)).map
        fun kv => (kv.1, reloadedMember store parseDate kv) := by
    refine List.filter_eq_self.mpr fun back hback => ?_
    obtain ⟨kv, hkv, rfl⟩ := List.mem_map.mp hback
    exact hall kv hkv
  have hsort : ∀ l : List (String × JsValue),
      sortKeys (l.map fun kv => (kv.1, reloadedMember store parseDate kv)) =
        (sortKeys l).map fun kv => (kv.1, reloadedMember store parseDate kv) :=
    fun l => sortBy_map (fun _ _ => rfl) l
  have hkept : ∀ (p : String × JsValue → Bool) (l : List (String × JsValue)),
      (sortBy (fun a b => compareStrings a.1 b.1) l).filter p =
        sortBy (fun a b => compareStrings a.1 b.1) (l.filter p) := fun p l => sortBy_filter p l
  rw [hashedMembers, hdefined, hsort, hashedMembers, sortKeys, sortKeys, hkept]

theorem lateDate_text {v : JsValue} (h : lateDate v = true) :
    ∃ t, v = .date (some t) ∧ store.reload parseDate v = .str (isoText t) := by
  cases v with
  | date d =>
    cases d with
    | none => cases h
    | some t =>
      refine ⟨t, rfl, ?_⟩
      rw [reload_date, reload_str, if_neg (by simpa [lateDate] using h)]
  | _ => cases h

/-- A member that keeps its text and gives no secret away is settled. -/
theorem settledMember_of_text (hvalid : validDates kv.2 = true)
    (hsecret : secretMember (kv.1, reloadedMember store parseDate kv) = false)
    (ih : containsUnredactedSecret (store.reload parseDate kv.2) = false → ∀ r r',
      canonicalText kv.2 ++ r = canonicalText (store.reload parseDate kv.2) ++ r' →
      settled store parseDate kv.2 = true ∧ r = r') (hkept : keptMember store kv = true)
    (h : hashedMember (kv.1, canonicalText kv.2) ++ rest =
      hashedMember (kv.1, canonicalText (reloadedMember store parseDate kv)) ++ rest') :
    settledMember store parseDate kv = true ∧ rest = rest' := by
  have hvalue := (Bool.or_eq_false_iff.mp hsecret).2
  rw [hashedMember, hashedMember, List.append_assoc, List.append_assoc] at h
  have htext := (List.cons.inj (quoted_append_inj h).2).2
  by_cases hunsafe : kv.1 ∈ unsafeKeys
  · cases store with
    | postgres =>
      simp [keptMember, hunsafe] at hkept
    | jsonFile =>
      rw [reloadedMember, if_pos hunsafe] at htext hvalue
      rw [(canonicalText_image hvalid).2] at htext
      refine ⟨?_, List.append_cancel_left htext⟩
      rw [settledMember.eq_def, if_pos hunsafe]
      exact dateless_of_image hvalid hvalue
  · rw [reloadedMember, if_neg hunsafe] at htext hvalue hsecret
    obtain ⟨hsettled, hrest⟩ := ih hvalue _ _ htext
    refine ⟨?_, hrest⟩
    rw [settledMember_safe hunsafe, hsettled, Bool.true_and, Bool.not_eq_true']
    by_contra hlate
    rw [Bool.not_eq_false, Bool.and_eq_true] at hlate
    obtain ⟨t, -, hback⟩ := @lateDate_text store parseDate _ hlate.2
    rw [hback, secretMember, hlate.1] at hsecret
    simp [string, isoText_secret t] at hsecret

theorem settledMember_undefined (h : kv.2.isUndefined = true) :
    settledMember store parseDate kv = true := by
  obtain ⟨k, v⟩ := kv
  obtain rfl : v = .undefined := by cases v <;> first | rfl | cases h
  rw [settledMember.eq_def]
  split_ifs
  · cases store <;> rfl
  · simp [settled, lateDate]

/-- What is settled keeps its text. -/
theorem text_of_settled (hparse : ∀ t, parseDate (isoText t) = some t) {v : JsValue}
    (hvalid : validDates v = true) (hsettled : settled store parseDate v = true)
    (h : canonicalText v ++ rest = canonicalText (store.reload parseDate v) ++ rest') :
    settled store parseDate v = true ∧ rest = rest' := by
  rw [(canonicalText_reload hparse hvalid hsettled).2] at h
  exact ⟨hsettled, List.append_cancel_left h⟩

theorem settled_of_text (hparse : ∀ t, parseDate (isoText t) = some t) {v : JsValue}
    (hvalid : validDates v = true)
    (hsecret : containsUnredactedSecret (store.reload parseDate v) = false)
    (h : canonicalText v ++ rest = canonicalText (store.reload parseDate v) ++ rest') :
    settled store parseDate v = true ∧ rest = rest' := by
  induction v using JsValue.inductionOn generalizing rest rest' with
  | str s =>
    by_cases hiso : isIsoDateString s = true
    · rw [reload_str, if_pos hiso] at h
      cases ht : parseDate s with
      | none =>
        rw [ht] at h
        exact absurd (List.cons.inj h).1 (by decide)
      | some t =>
        rw [ht] at h
        obtain ⟨heq, hrest⟩ := quoted_append_inj h
        refine ⟨?_, hrest⟩
        rw [settled, settledText, ht, Option.any_some, heq, decide_eq_true rfl, Bool.or_true]
    · refine text_of_settled hparse hvalid ?_ h
      rw [settled, settledText]
      simp [hiso]
  | arr items ih =>
    rw [validDates, validItems_eq, List.all_eq_true] at hvalid
    rw [reload_arr, containsUnredactedSecret, secretItems_eq, List.any_map, List.any_eq_false] at hsecret
    have htexts : commaJoin (items.map canonicalText) ++ ']' :: rest =
        commaJoin ((items.filter fun _ => true).map (canonicalText ∘ store.reload parseDate)) ++
          ']' :: rest' := by
      rw [reload_arr, canonicalText, canonicalText, canonicalTexts_eq, canonicalTexts_eq,
        List.map_map] at h
      rw [List.filter_eq_self.mpr fun _ _ => rfl]
      simpa using h
    obtain ⟨hall, hrest⟩ := commaJoin_kept ']' (fun _ => true) canonicalText
      (canonicalText ∘ store.reload parseDate) (fun v => settled store parseDate v = true) (by decide)
      (fun v hv _ r r' htext => ih v hv (hvalid v hv) (by simpa using hsecret v hv) htext)
      (by simp) (by simp) htexts
    refine ⟨?_, hrest⟩
    rw [settled, settledItems_eq, List.all_eq_true]
    exact fun v hv => (hall v hv).2
  | obj fields ih =>
    rw [validDates, validFields_eq, List.all_eq_true] at hvalid
    rw [reload_members, containsUnredactedSecret, secretFields_eq, List.any_map,
      List.any_eq_false] at hsecret
    have htexts : commaJoin ((hashedMembers fields).map fun kv => hashedMember (kv.1, canonicalText kv.2)) ++
          '\x7d' :: rest =
        commaJoin (((hashedMembers fields).filter (keptMember store)).map fun kv =>
          hashedMember (kv.1, canonicalText (reloadedMember store parseDate kv))) ++ '\x7d' :: rest' := by
      rw [reload_members, canonicalText_obj, canonicalText_obj, hashedMembers_reload, List.map_map] at h
      simpa [Function.comp_def] using h
    have hmem : ∀ kv, kv ∈ hashedMembers fields ↔ kv ∈ fields ∧ kv.2.isUndefined = false := by
      intro kv
      rw [hashedMembers, sortKeys, mem_sortBy, List.mem_filter]
      simp
    have hkept : ∀ kv ∈ hashedMembers fields, keptMember store kv = true → ∀ r r',
        hashedMember (kv.1, canonicalText kv.2) ++ r =
          hashedMember (kv.1, canonicalText (reloadedMember store parseDate kv)) ++ r' →
        settledMember store parseDate kv = true ∧ r = r' := by
      intro kv hkv hkept r r' htext
      obtain ⟨hfield, hdefined⟩ := (hmem kv).mp hkv
      have hsafe := hsecret kv (List.mem_filter.mpr
        ⟨List.mem_filter.mpr ⟨hfield, by rw [hdefined]; rfl⟩, hkept⟩)
      exact settledMember_of_text (hvalid kv hfield) (by simpa using hsafe)
        (fun hvalue r r' => ih kv hfield (hvalid kv hfield) hvalue) hkept htext
    -- a member that is lost has a name that none of the others has
    have hlost : ∀ kv ∈ hashedMembers fields, keptMember store kv = false →
        ∀ kv' ∈ hashedMembers fields, keptMember store kv' = true → ∀ r r',
        hashedMember (kv.1, canonicalText kv.2) ++ r ≠
          hashedMember (kv'.1, canonicalText (reloadedMember store parseDate kv')) ++ r' := by
      intro kv _ hlost kv' _ hkept r r' htext
      rw [hashedMember, hashedMember, List.append_assoc, List.append_assoc] at htext
      have hkey := (quoted_append_inj htext).1
      cases store with
      | jsonFile => cases hlost
      | postgres => simp_all [keptMember]
    have hstart : ∀ kv ∈ hashedMembers fields, keptMember store kv = false → ∀ r r',
        hashedMember (kv.1, canonicalText kv.2) ++ r ≠ '\x7d' :: r' := by
      intro kv _ _ r r' htext
      exact absurd (List.cons.inj htext).1 (by decide)
    obtain ⟨hall, hrest⟩ := commaJoin_kept '\x7d' (keptMember store) _ _ _ (by decide) hkept hlost hstart
      htexts
    refine ⟨?_, hrest⟩
    rw [settled, settledFields_eq, List.all_eq_true]
    intro kv hkv
    by_cases hdefined : kv.2.isUndefined = false
    · exact (hall kv ((hmem kv).mpr ⟨hkv, hdefined⟩)).2
    · exact settledMember_undefined (by simpa using hdefined)
  | _ => exact text_of_settled hparse hvalid rfl h

end Reload

end Wazir.Checkpoints
