import Wazir.Database.Transactions

/-! The PostgreSQL store is atomic in every run in which no put or delete overtakes an update. -/

namespace Wazir.Database

open Wazir.Async JsValue

/-! A call takes effect with its last statement. -/

def Concludes : StoreProg JsValue → Prop
  | .ret _ => True
  | .raise _ => True
  | .call op next => ∀ r, (∀ i c fault row row', decides ⟨i, c, op, fault, r, row, row'⟩ = true →
      ∃ value, next r = .ret value) ∧ Concludes (next r)

/-- A statement that leaves its call under way. -/
theorem Concludes.step {op : Statement} {next : StatementRes op → StoreProg JsValue}
    (hop : ∀ i c fault r row row', decides ⟨i, c, op, fault, r, row, row'⟩ = false)
    (hnext : ∀ r, Concludes (next r)) : Concludes (.call op next) := by
  refine fun r => ⟨fun i c fault row row' h => ?_, hnext r⟩
  rw [hop] at h
  cases h

theorem transaction_concludes (driver : Driver) (mutate : JsValue → Except String JsValue)
    (s : Session) {handler : String → StoreProg JsValue} (hh : ∀ e, Concludes (handler e)) :
    Concludes ((PostgresStore.transaction driver mutate s).handle handler) := by
  refine Concludes.step (fun _ _ _ _ _ _ => rfl) fun r => ?_
  cases r with
  | error e => exact hh e
  | ok _ =>
  refine Concludes.step (fun _ _ _ _ _ _ => rfl) fun r => ?_
  cases r with
  | error e => exact hh e
  | ok _ =>
  refine Concludes.step (fun _ _ _ _ _ _ => rfl) fun r => ?_
  cases r with
  | error e => exact hh e
  | ok found =>
  simp only [Prog.bind_def, Prog.resume_ok, Prog.bind_ret]
  cases mutate (driver.read found) with
  | error e => exact hh e
  | ok value =>
  refine Concludes.step (fun _ _ _ _ _ _ => rfl) fun r => ?_
  cases r with
  | error e => exact hh e
  | ok _ =>
  intro r
  cases r with
  | error e => exact ⟨fun _ _ _ _ _ h => (Bool.false_ne_true h).elim, hh e⟩
  | ok _ => exact ⟨fun _ _ _ _ _ _ => ⟨value, rfl⟩, trivial⟩

theorem body_concludes (driver : Driver) (c : StoreRequest) : Concludes (c.body driver) := by
  have single : ∀ (op : Statement) (next : StatementRes op → StoreProg JsValue),
      (∀ r, (∃ value, next r = .ret value) ∨ (∃ e, next r = .raise e) ∧
        ∀ i c fault row row', decides ⟨i, c, op, fault, r, row, row'⟩ = false) →
      Concludes (.call op next) := by
    intro op next hnext r
    rcases hnext r with ⟨value, hv⟩ | ⟨⟨e, he⟩, hd⟩
    · exact ⟨fun _ _ _ _ _ _ => ⟨value, hv⟩, by rw [hv]; trivial⟩
    · exact ⟨fun _ _ _ _ _ h => absurd h (by simp [hd]), by rw [he]; trivial⟩
  unfold StoreRequest.body
  split
  · refine single .select _ fun r => ?_
    cases r with
    | ok _ => exact .inl ⟨_, rfl⟩
    | error e => exact .inr ⟨⟨e, rfl⟩, fun _ _ _ _ _ => rfl⟩
  · refine single (.upsert _) _ fun r => ?_
    cases r with
    | ok _ => exact .inl ⟨_, rfl⟩
    | error e => exact .inr ⟨⟨e, rfl⟩, fun _ _ _ _ _ => rfl⟩
  · refine Concludes.step (fun _ _ _ _ _ _ => rfl) fun r => ?_
    cases r with
    | error e => trivial
    | ok s =>
      refine transaction_concludes driver _ s fun e => ?_
      refine Concludes.step (fun _ _ _ _ _ _ => rfl) fun r => ?_
      cases r <;> trivial
  · refine single .delete _ fun r => ?_
    cases r with
    | ok _ => exact .inl ⟨_, rfl⟩
    | error e => exact .inr ⟨⟨e, rfl⟩, fun _ _ _ _ _ => rfl⟩

/-- Each turn is the last thing its thread does. -/
structure Concluded (cfg : StoreConfig) : Prop where
  call : ∀ e ∈ cfg.hist.entries, ∃ rest, cfg.threads[e.thread]? = some ⟨e.call, rest⟩
  rest : ∀ i c p, cfg.threads[i]? = some ⟨c, some p⟩ → Concludes p ∧
    ((∃ t ∈ turns cfg.hist, t.thread = i) → ∃ value, p = .ret value)
  once : ((turns cfg.hist).map Turn.thread).Nodup

theorem turn_mem {h : StoreHist} {t : Turn} (ht : t ∈ turns h) :
    ∃ e ∈ h.entries, e.thread = t.thread ∧ e.call.call = t.call := by
  obtain ⟨e, he, hturn⟩ := List.mem_filterMap.mp ht
  unfold turn at hturn
  split_ifs at hturn
  cases hturn
  exact ⟨e, he, rfl, rfl⟩

theorem Concluded.grow {cfg cfg' : StoreConfig} (hc : Concluded cfg)
    (he : cfg'.hist.entries = cfg.hist.entries)
    (hcall : ∀ (i : ℕ) (c : StoreRequest) (rest : Option (StoreProg JsValue)),
      cfg.threads[i]? = some ⟨c, rest⟩ → ∃ rest', cfg'.threads[i]? = some ⟨c, rest'⟩)
    (hrest : ∀ (i : ℕ) (c : StoreRequest) (p : StoreProg JsValue),
      cfg'.threads[i]? = some ⟨c, some p⟩ → cfg.threads[i]? = some ⟨c, some p⟩ ∨
        Concludes p ∧ cfg.threads[i]? = none) : Concluded cfg' := by
  have hturns : turns cfg'.hist = turns cfg.hist := by rw [turns, he, ← turns]
  refine ⟨fun e hmem => ?_, fun i c p hp => ?_, by rw [hturns]; exact hc.once⟩
  · obtain ⟨rest, ht⟩ := hc.call e (he ▸ hmem)
    exact hcall _ _ _ ht
  · rw [hturns]
    rcases hrest i c p hp with hp | ⟨hp, hnone⟩
    · exact hc.rest i c p hp
    · refine ⟨hp, ?_⟩
      rintro ⟨t, ht, hi⟩
      obtain ⟨e, hmem, hthread, -⟩ := turn_mem ht
      obtain ⟨rest, hold⟩ := hc.call e hmem
      rw [hthread, hi, hnone] at hold
      cases hold

theorem concluded {driver : Driver} {row : Row} {cfg : StoreConfig}
    (hr : Reach (StoreSystem driver) row cfg) : Concluded cfg := by
  induction hr with
  | start =>
    exact ⟨fun e he => by simp [Config.start, Hist.entries] at he,
      fun i c p ht => by simp [Config.start] at ht, List.nodup_nil⟩
  | @step cfg _ hreach hs ih =>
    cases hs with
    | begin c s alive admitted =>
      refine ih.grow (Hist.entries_push_began ..) (fun i d rest ht => ⟨rest, ?_⟩) fun i d p ht => ?_
      · rw [List.getElem?_append_left (List.getElem?_eq_some_iff.mp ht).1, ht]
      · rcases Nat.lt_or_ge i cfg.threads.length with hi | hi
        · rw [List.getElem?_append_left hi] at ht
          exact .inl ht
        · rw [List.getElem?_append_right hi] at ht
          obtain ⟨_, hd⟩ := List.getElem?_eq_some_iff.mp ht
          simp only [List.getElem_singleton, Thread.mk.injEq, Option.some.injEq] at hd
          obtain ⟨rfl, rfl⟩ := hd
          exact .inr ⟨body_concludes driver c, List.getElem?_eq_none hi⟩
    | crash q =>
      refine ih.grow (Hist.entries_push_crashed ..) (fun i d rest ht => ?_) fun i d p ht => ?_
      · simp only [List.getElem?_map, ht, Option.map_some, Thread.kill]
        split_ifs <;> exact ⟨_, rfl⟩
      · simp only [List.getElem?_map] at ht
        obtain ⟨t, ht', hk⟩ := Option.map_eq_some_iff.mp ht
        unfold Thread.kill at hk
        split_ifs at hk
        · cases hk
        · subst hk
          exact .inl ht'
    | run i c op next inp r s hw hx =>
      have hlen := (List.getElem?_eq_some_iff.mp hw).1
      obtain ⟨hconc, hturned⟩ := ih.rest i c _ hw
      have hnone : ∀ t ∈ turns cfg.hist, t.thread ≠ i := fun t ht hi => by
        obtain ⟨value, hv⟩ := hturned ⟨t, ht, hi⟩
        cases hv
      obtain ⟨hlast, hnext⟩ := hconc r
      have he : (cfg.hist.push (.ran ⟨i, c, op, inp, r, cfg.hist.shared, s⟩) s).entries =
          cfg.hist.entries ++ [⟨i, c, op, inp, r, cfg.hist.shared, s⟩] := Hist.entries_push_ran ..
      have hturns : turns (cfg.hist.push (.ran ⟨i, c, op, inp, r, cfg.hist.shared, s⟩) s) =
          turns cfg.hist ++ (turn ⟨i, c, op, inp, r, cfg.hist.shared, s⟩).toList := turns_ran
      refine ⟨fun e hmem => ?_, fun j d p ht => ?_, ?_⟩
      · rw [he] at hmem
        rcases List.mem_append.mp hmem with hmem | hmem
        · obtain ⟨rest, ht⟩ := ih.call e hmem
          by_cases hij : i = e.thread
          · rw [← hij, hw] at ht
            cases ht
            exact ⟨_, by rw [← hij]; exact List.getElem?_set_self hlen⟩
          · exact ⟨rest, by rw [List.getElem?_set_ne hij, ht]⟩
        · cases List.mem_singleton.mp hmem
          exact ⟨_, List.getElem?_set_self hlen⟩
      · rw [hturns]
        by_cases hij : i = j
        · subst hij
          rw [List.getElem?_set_self hlen] at ht
          cases ht
          refine ⟨hnext, ?_⟩
          rintro ⟨t, ht, hi⟩
          rcases List.mem_append.mp ht with ht | ht
          · exact absurd hi (hnone t ht)
          · unfold turn at ht
            split_ifs at ht with hd
            · exact hlast _ _ _ _ _ hd
            · simp at ht
        · rw [List.getElem?_set_ne hij] at ht
          obtain ⟨hp, hret⟩ := ih.rest j d p ht
          refine ⟨hp, ?_⟩
          rintro ⟨t, ht, hj⟩
          rcases List.mem_append.mp ht with ht | ht
          · exact hret ⟨t, ht, hj⟩
          · unfold turn at ht
            split_ifs at ht
            · cases List.mem_singleton.mp ht
              exact absurd hj hij
            · simp at ht
      · rw [hturns, List.map_append]
        unfold turn
        split_ifs
        · refine List.Nodup.append ih.once (List.nodup_singleton _) fun j hj hj' => ?_
          obtain ⟨t, ht, rfl⟩ := List.mem_map.mp hj
          exact hnone t ht (List.mem_singleton.mp hj')
        · simpa using ih.once

theorem storeInv_start (driver : Driver) (start : Option JsValue) :
    StoreInv driver start ⟨[], Row.start start⟩ where
  fresh e he := absurd he List.not_mem_nil
  apart e he := absurd he List.not_mem_nil
  locked s h := by cases h
  written w h := by cases h
  serial := rfl
  handed e he := absurd he List.not_mem_nil

/-- The store is atomic: in a run in which an update that a put or delete overtook finds the row
as it read it, an order of the calls that took effect explains everything the run shows. -/
theorem store_atomic {driver : Driver} {start : Option JsValue} {cfg : StoreConfig}
    (hr : Reach (StoreSystem driver) (Row.start start) cfg) (hok : cfg.hist.Always NotOvertaken) :
    ∃ order, Explains driver start cfg order := by
  have hstart := storeInv_start driver start
  obtain ⟨inv, -⟩ := store_upheld.run hstart hr hok
  have hc := concluded hr
  refine ⟨turns cfg.hist, inv.serial, hc.once, fun i c out hret => ?_, fun t ht => ?_,
    fun i c s inp r before after hmem => inv.handed _ hmem r rfl⟩
  · obtain ⟨cfg₀, hr₀, hlater, hret⟩ := hret
    obtain ⟨rest, hrest⟩ := Step.events_prefix hlater
    obtain ⟨h₀, ⟨new, he, -⟩, hans⟩ := store_upheld.finished hstart hr₀ (hok.upTo hrest.symm)
      (o := .ok out) (Config.returned_eq_some hret)
    obtain ⟨t, ht, hthread, hcall, hseq⟩ := hans out rfl
    refine ⟨t, ((Step.entries_prefix hlater).filterMap turn).subset ?_, hthread, hcall, hseq⟩
    rw [he, List.filterMap_append]
    exact List.mem_append_left _ ht
  · obtain ⟨e, hmem, hthread, hcall⟩ := turn_mem ht
    obtain ⟨rest, hrest⟩ := hc.call e hmem
    rw [hthread] at hrest
    cases rest with
    | none => exact .inr ⟨e.call, hrest⟩
    | some p =>
      obtain ⟨value, rfl⟩ := (hc.rest _ _ p hrest).2 ⟨t, ht, rfl⟩
      exact .inl ⟨e.call, value, by simp [Config.returned, hrest], hcall⟩

/-! Runs. -/

def plainDriver : Driver := ⟨fun _ => none, id⟩

/-- Count up. -/
def countUp : JsValue → Except String JsValue
  | .num (.finite q) => .ok (.num (.finite (q + 1)))
  | _ => .ok (.nat 1)

def countOf : Option JsValue → Option JsNumber := fun row => row.bind JsValue.number

/-- Two clients count up at once, and one of them reads the count. The other one puts and is lost, and
the value is read and deleted. -/
def twoUpdates : List (Action StoreRequest ℕ (Option String)) :=
  [.begin ⟨0, .update countUp⟩, .begin ⟨1, .update countUp⟩, .run 0 none, .run 1 none,
    .run 0 none, .run 1 none, .run 0 none, .run 0 none, .run 0 none, .run 0 none, .run 1 none,
    .run 1 none, .run 1 none, .run 1 none, .begin ⟨0, .get⟩, .run 2 none,
    .begin ⟨1, .put (.nat 5)⟩, .run 3 none, .crash 1, .begin ⟨0, .get⟩, .run 4 none,
    .begin ⟨0, .delete⟩, .run 5 none]

/-- No put or delete overtakes the update. -/
def unovertaken (h : StoreHist) (e : StoreEntry) : Bool :=
  match e.op with
  | .upsertIn _ _ => (since h e.thread).all fun w => !unlockedWrite w
  | _ => true

theorem unovertaken_sound (h : StoreHist) (e : StoreEntry) (hcheck : unovertaken h e = true) :
    NotOvertaken h e := by
  unfold NotOvertaken
  unfold unovertaken at hcheck
  split
  · rename_i heq
    simp only [heq, List.all_eq_true, Bool.not_eq_true'] at hcheck
    intro ⟨w, hw, hunlocked⟩
    rw [hcheck w hw] at hunlocked
    cases hunlocked
  · trivial

/-- The number that the call of thread `i` returned. -/
def numberOf (cfg : StoreConfig) (i : ℕ) : Option JsNumber :=
  (cfg.returned i).bind fun r => r.2.number

theorem store_atomic_two : ∃ cfg, Reach (StoreSystem plainDriver) (Row.start none) cfg ∧
    (numberOf cfg 2 = some (.finite 2) ∧ numberOf cfg 4 = some (.finite 5) ∧
      cfg.hist.shared.committed.isNone = true ∧ cfg.hist.dead = [1]) ∧
    ∃ order, Explains plainDriver none cfg order := by
  have h : (schedule (StoreSystem plainDriver) twoUpdates (.start (Row.start none))).any
      (fun cfg => decide (numberOf cfg 2 = some (.finite 2) ∧ numberOf cfg 4 = some (.finite 5) ∧
          cfg.hist.shared.committed.isNone = true ∧ cfg.hist.dead = [1]) &&
        Hist.checkFrom unovertaken [] cfg.hist.events) = true := by
    decide +kernel
  obtain ⟨cfg, hr, hcheck⟩ := Reach.of_check h
  obtain ⟨hseen, hok⟩ := Bool.and_eq_true_iff.mp hcheck
  exact ⟨cfg, hr, of_decide_eq_true hseen,
    store_atomic hr (Hist.always_of_check unovertaken_sound hok)⟩

/-- A put comes and returns between the read and the write of an update. -/
def putInBetween : List (Action StoreRequest ℕ (Option String)) :=
  [.begin ⟨0, .update countUp⟩, .run 0 none, .run 0 none, .run 0 none, .run 0 none,
    .begin ⟨1, .put (.nat 5)⟩, .run 1 none, .run 0 none, .run 0 none]

/-- Both calls returned, the update had read the absent value, and the put is undone. -/
def putUndone (cfg : StoreConfig) : Bool :=
  cfg.threads.length = 2 && (cfg.returned 0).isSome && 
    (match cfg.returned 1 with
    | some (⟨_, .put (.num (.finite q))⟩, _) => q = 5
    | _ => false) &&
    countOf cfg.hist.shared.committed = some (.finite 1) &&
    cfg.hist.entries.any fun e => match e with
      | ⟨0, _, .selectIn _, _, .ok none, _, _⟩ => true
      | _ => false

/-- In a run of two calls that both returned an order holds just these two. -/
theorem two_turns {driver : Driver} {start : Option JsValue} {cfg : StoreConfig}
    {order : List Turn} (hx : Explains driver start cfg order) (hlen : cfg.threads.length = 2)
    (hzero : ∃ t ∈ order, t.thread = 0) (hone : ∃ t ∈ order, t.thread = 1) :
    ∃ a b, order = [a, b] := by
  have hlt : ∀ t ∈ order, t.thread < 2 := by
    intro t ht
    rcases hx.succeeded t ht with ⟨c, out, hret, -⟩ | ⟨c, hlost⟩
    · exact hlen ▸ (List.getElem?_eq_some_iff.mp (Config.returned_eq_some hret)).1
    · exact hlen ▸ (List.getElem?_eq_some_iff.mp hlost).1
  have hperm : (order.map Turn.thread).Perm [0, 1] := by
    refine (List.perm_ext_iff_of_nodup hx.once (by decide)).mpr fun n => ?_
    constructor
    · intro hn
      obtain ⟨t, ht, rfl⟩ := List.mem_map.mp hn
      have := hlt t ht
      simp only [List.mem_cons, List.not_mem_nil, or_false]
      omega
    · intro hn
      simp only [List.mem_cons, List.not_mem_nil, or_false] at hn
      rcases hn with rfl | rfl
      · exact List.mem_map.mpr hzero
      · exact List.mem_map.mpr hone
  have hlength := hperm.length_eq
  rw [List.length_map] at hlength
  exact List.length_eq_two.mp hlength

theorem put_undone : ∃ cfg, Reach (StoreSystem plainDriver) (Row.start none) cfg ∧
    ¬ ∃ order, Explains plainDriver none cfg order := by
  have h : (schedule (StoreSystem plainDriver) putInBetween (.start (Row.start none))).any
      putUndone = true := by
    decide
  obtain ⟨cfg, hr, hundone⟩ := Reach.of_check h
  simp only [putUndone, Bool.and_eq_true, decide_eq_true_eq, List.any_eq_true] at hundone
  obtain ⟨⟨⟨⟨hlen, hzero⟩, hone⟩, hfinal⟩, e, he, hread⟩ := hundone
  refine ⟨cfg, hr, fun ⟨order, hx⟩ => ?_⟩
  obtain ⟨⟨c₀, out₀⟩, hzero⟩ := Option.isSome_iff_exists.mp hzero
  obtain ⟨t₀, ht₀, hthread₀, -, -⟩ := hx.returned _ _ _ ⟨cfg, hr, .refl, hzero⟩
  have hbefore : t₀.before = none := by
    split at hread
    · exact (hx.handed _ _ _ _ _ _ _ he).2 t₀ ht₀ hthread₀
    · cases hread
  obtain ⟨t₁, ht₁, hthread₁, hafter⟩ : ∃ t₁ ∈ order, t₁.thread = 1 ∧ t₁.after = some (.nat 5) := by
    split at hone
    · rename_i hreturned
      obtain ⟨t₁, ht₁, hthread₁, hcall, hseq⟩ := hx.returned _ _ _ ⟨cfg, hr, .refl, hreturned⟩
      rw [hcall, of_decide_eq_true hone] at hseq
      exact ⟨t₁, ht₁, hthread₁, (Prod.mk.inj (Except.ok.inj hseq)).2.symm⟩
    · cases hone
  obtain ⟨a, b, rfl⟩ := two_turns hx hlen ⟨t₀, ht₀, hthread₀⟩ ⟨t₁, ht₁, hthread₁⟩
  obtain ⟨hstart, -, hmid, -, hend⟩ := hx.serial
  have hne : t₀ ≠ t₁ := fun heq => by
    rw [heq, hthread₁] at hthread₀
    cases hthread₀
  simp only [List.mem_cons, List.not_mem_nil, or_false] at ht₀ ht₁
  rcases ht₀ with rfl | rfl <;> rcases ht₁ with rfl | rfl
  · exact hne rfl
  · -- the put last: the key would hold what was put
    rw [← hend, hafter] at hfinal
    exact absurd hfinal (by decide)
  · -- the put first: the update would have been handed what was put
    rw [hbefore, hafter] at hmid
    cases hmid
  · exact hne rfl

end Wazir.Database
