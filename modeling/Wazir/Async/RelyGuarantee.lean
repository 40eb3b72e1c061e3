import Mathlib.Logic.Relation
import Wazir.Async.System

/-! Rely-guarantee reasoning over runs of a `System`. A contract names an invariant of the
history, what each thread relies on while it waits, and an assumption on the run. A
procedure is `Safe` from a history when each of its commands, executed in any history the
thread's rely allows, restores the invariant and keeps what every other thread relies on.
If every call's procedure is safe when the call begins, the invariant holds in every
configuration that any interleaving comes to, crashes included. -/

namespace Wazir.Async

variable {Op : Type} {Res : Op → Type} {Err Out Call Proc Input Shared α β : Type}

/-- The history after thread `i` executed `op`. -/
def Hist.ran (h : Hist Op Res Call Proc Input Shared) (i : ℕ) (c : Call) (op : Op) (inp : Input)
    (r : Res op) (s : Shared) : Hist Op Res Call Proc Input Shared :=
  h.push (.ran ⟨i, c, op, inp, r, h.shared, s⟩) s

/-- `Ok` is what is assumed of the run; a run that breaks it later was fine before. -/
structure Contract (Op : Type) (Res : Op → Type) (Call Proc Input Shared : Type) where
  Ok : Hist Op Res Call Proc Input Shared → Prop
  Inv : Hist Op Res Call Proc Input Shared → Prop
  Rely : ℕ → Call → Hist Op Res Call Proc Input Shared → Hist Op Res Call Proc Input Shared → Prop

variable {h : Hist Op Res Call Proc Input Shared}

section Safety

variable (S : System Op Res Err Out Call Proc Input Shared)
  (C : Contract Op Res Call Proc Input Shared) (i : ℕ) (c : Call)

def Safe (Q : Except Err α → Hist Op Res Call Proc Input Shared → Prop) :
    Prog Op Res Err α → Hist Op Res Call Proc Input Shared → Prop
  | .ret a, h => Q (.ok a) h
  | .raise e, h => Q (.error e) h
  | .call op next, h => ∀ h' inp r s, C.Rely i c h h' → C.Inv h' →
      S.exec op inp h'.shared = some (r, s) → C.Ok (h'.ran i c op inp r s) →
      C.Inv (h'.ran i c op inp r s) ∧
      (∀ j d, j ≠ i → C.Rely j d h' (h'.ran i c op inp r s)) ∧
      Safe Q (next r) (h'.ran i c op inp r s)

variable {S C i c}

theorem Safe.mono {Q Q' : Except Err α → Hist Op Res Call Proc Input Shared → Prop}
    (hQ : ∀ out h, Q out h → Q' out h) {p : Prog Op Res Err α} (hp : Safe S C i c Q p h) :
    Safe S C i c Q' p h := by
  induction p generalizing h with
  | ret a => exact hQ _ _ hp
  | raise e => exact hQ _ _ hp
  | call op next ih =>
    intro h' inp r s hrely hinv hx hok
    obtain ⟨hi, hr, hn⟩ := hp h' inp r s hrely hinv hx hok
    exact ⟨hi, hr, ih r hn⟩

theorem Safe.settle {R : Except Err α → Hist Op Res Call Proc Input Shared → Prop}
    {Q : Except Err β → Hist Op Res Call Proc Input Shared → Prop} {p : Prog Op Res Err α}
    {f : Except Err α → Prog Op Res Err β} (hp : Safe S C i c R p h)
    (hf : ∀ out h', R out h' → Safe S C i c Q (f out) h') :
    Safe S C i c Q (p.settle f) h := by
  induction p generalizing h with
  | ret a => exact hf _ _ hp
  | raise e => exact hf _ _ hp
  | call op next ih =>
    intro h' inp r s hrely hinv hx hok
    obtain ⟨hi, hr, hn⟩ := hp h' inp r s hrely hinv hx hok
    exact ⟨hi, hr, ih r hn⟩

theorem Safe.bind {R : Except Err α → Hist Op Res Call Proc Input Shared → Prop}
    {Q : Except Err β → Hist Op Res Call Proc Input Shared → Prop} {p : Prog Op Res Err α}
    {f : α → Prog Op Res Err β} (hp : Safe S C i c R p h)
    (hok : ∀ a h', R (.ok a) h' → Safe S C i c Q (f a) h')
    (herr : ∀ e h', R (.error e) h' → Q (.error e) h') : Safe S C i c Q (p.bind f) h := by
  rw [Prog.bind_eq_settle]
  refine hp.settle fun out h' hR => ?_
  cases out with
  | ok a => exact hok a h' hR
  | error e => exact herr e h' hR

/-- A procedure whose commands each restore the invariant from anywhere is safe, and keeps
what neither its own commands nor those of others undo. -/
theorem Safe.of_only_keeps {P : Op → Prop} {K : Hist Op Res Call Proc Input Shared → Prop}
    (step : ∀ h op inp r s, P op → C.Inv h → S.exec op inp h.shared = some (r, s) →
      C.Ok (h.ran i c op inp r s) → C.Inv (h.ran i c op inp r s) ∧
      ∀ j d, j ≠ i → C.Rely j d h (h.ran i c op inp r s))
    (others : ∀ h h', C.Rely i c h h' → K h → K h')
    (own : ∀ h op inp r s, P op → K h → K (h.ran i c op inp r s)) {p : Prog Op Res Err α}
    (hp : p.Only P) (hk : K h) :
    Safe S C i c (fun _ h => K h) p h := by
  induction p generalizing h with
  | ret a => exact hk
  | raise e => exact hk
  | call op next ih =>
    intro h' inp r s hrely hinv hx hok
    obtain ⟨hi, hr⟩ := step h' op inp r s hp.1 hinv hx hok
    exact ⟨hi, hr, ih r (hp.2 r) (own h' op inp r s hp.1 (others h h' hrely hk))⟩

theorem Safe.of_only {P : Op → Prop}
    (step : ∀ h op inp r s, P op → C.Inv h → S.exec op inp h.shared = some (r, s) →
      C.Ok (h.ran i c op inp r s) → C.Inv (h.ran i c op inp r s) ∧
      ∀ j d, j ≠ i → C.Rely j d h (h.ran i c op inp r s))
    {p : Prog Op Res Err α} (hp : p.Only P) (h : Hist Op Res Call Proc Input Shared) :
    Safe S C i c (fun _ _ => True) p h :=
  Safe.of_only_keeps step (fun _ _ _ _ => trivial) (fun _ _ _ _ _ _ _ => trivial) hp trivial

variable (C i c) in
/-- What the others cannot undo. -/
def Stable (A : Hist Op Res Call Proc Input Shared → Prop) : Prop :=
  ∀ h h', C.Rely i c h h' → A h → A h'

theorem Stable.and {A B : Hist Op Res Call Proc Input Shared → Prop} (ha : Stable C i c A)
    (hb : Stable C i c B) : Stable C i c fun h => A h ∧ B h :=
  fun h h' hr hab => ⟨ha h h' hr hab.1, hb h h' hr hab.2⟩

end Safety

/-- The obligations of a contract: the rely is a preorder, new calls and crashes keep the
invariant and the relies, and each call's procedure is safe from where it begins. -/
structure Contract.Upheld (C : Contract Op Res Call Proc Input Shared)
    (S : System Op Res Err Out Call Proc Input Shared)
    (Q : ℕ → Call → Except Err Out → Hist Op Res Call Proc Input Shared → Prop) : Prop where
  okPrefix : ∀ h ev s, C.Ok (h.push ev s) → C.Ok h
  refl : ∀ i c h, C.Rely i c h h
  trans : ∀ i c h₁ h₂ h₃, C.Rely i c h₁ h₂ → C.Rely i c h₂ h₃ → C.Rely i c h₁ h₃
  began : ∀ h i c s, C.Inv h → h.entriesOf i = [] → S.proc c ∉ h.dead →
    S.admits c h.shared = some s → C.Ok (h.push (.began i c) s) →
    C.Inv (h.push (.began i c) s) ∧ (∀ j d, j ≠ i → C.Rely j d h (h.push (.began i c) s)) ∧
    Safe S C i c (Q i c) (S.body c) (h.push (.began i c) s)
  crashed : ∀ h p, C.Inv h → C.Ok (h.push (.crashed p) (S.crash p h.shared)) →
    C.Inv (h.push (.crashed p) (S.crash p h.shared)) ∧
    ∀ j d, S.proc d ≠ p → C.Rely j d h (h.push (.crashed p) (S.crash p h.shared))

variable {cfg : Config Op Res Err Out Call Proc Input Shared}
  {pre post : List (Event Op Res Call Proc Input Shared)}
  {cfg cfg' : Config Op Res Err Out Call Proc Input Shared}

section Runs

variable [DecidableEq Proc] {S : System Op Res Err Out Call Proc Input Shared}
  {C : Contract Op Res Call Proc Input Shared} {s₀ : Shared}
  {Q : ℕ → Call → Except Err Out → Hist Op Res Call Proc Input Shared → Prop}

/-- A live thread is safe from some history that its rely leads to the present from. -/
def ThreadSafe (S : System Op Res Err Out Call Proc Input Shared)
    (C : Contract Op Res Call Proc Input Shared)
    (Q : ℕ → Call → Except Err Out → Hist Op Res Call Proc Input Shared → Prop)
    (h : Hist Op Res Call Proc Input Shared) (i : ℕ) (t : Thread Op Res Err Out Call) : Prop :=
  ∀ p, t.rest = some p → ∃ h₀, C.Rely i t.call h₀ h ∧ Safe S C i t.call (Q i t.call) p h₀

omit [DecidableEq Proc] in
theorem ThreadSafe.later (U : C.Upheld S Q) {h h' : Hist Op Res Call Proc Input Shared} {i : ℕ}
    {t : Thread Op Res Err Out Call} (ht : ThreadSafe S C Q h i t)
    (hr : C.Rely i t.call h h') : ThreadSafe S C Q h' i t := by
  intro p hp
  obtain ⟨h₀, hr₀, hs⟩ := ht p hp
  exact ⟨h₀, U.trans _ _ _ _ _ hr₀ hr, hs⟩

theorem entriesOf_fresh (hr : Reach S s₀ cfg) {i : ℕ} (hi : cfg.threads.length ≤ i) :
    cfg.hist.entriesOf i = [] := by
  induction hr generalizing i with
  | start => rfl
  | step _ hs ih =>
    cases hs with
    | begin c s _ _ =>
      simp only [List.length_append, List.length_singleton] at hi
      simpa using ih (by omega)
    | run j c op next inp r s hw _ =>
      have hj : j < _ := (List.getElem?_eq_some_iff.mp hw).1
      simp only [List.length_set] at hi
      rw [Hist.entriesOf_push_ran, ih hi]
      simp only [List.nil_append, ite_eq_right_iff]
      omega
    | crash p =>
      simp only [List.length_map] at hi
      simpa using ih hi

theorem Contract.Upheld.step (U : C.Upheld S Q) (hreach : Reach S s₀ cfg) (hs : Step S cfg cfg')
    (hok : C.Ok cfg'.hist) (hinv : C.Inv cfg.hist)
    (hsafe : ∀ i t, cfg.threads[i]? = some t → ThreadSafe S C Q cfg.hist i t) :
    C.Inv cfg'.hist ∧ ∀ i t, cfg'.threads[i]? = some t → ThreadSafe S C Q cfg'.hist i t := by
  cases hs with
  | begin c s alive adm =>
    obtain ⟨hi, hrely, hbody⟩ :=
      U.began cfg.hist _ c s hinv (entriesOf_fresh hreach le_rfl) alive adm hok
    refine ⟨hi, fun j t ht => ?_⟩
    rcases Nat.lt_trichotomy j cfg.threads.length with hj | hj | hj
    · rw [List.getElem?_append_left hj] at ht
      exact (hsafe j t ht).later U (hrely j t.call (by omega))
    · subst hj
      simp only [List.getElem?_append_right le_rfl, Nat.sub_self, List.getElem?_cons_zero,
        Option.some.injEq] at ht
      subst ht
      intro p hp
      cases hp
      exact ⟨_, U.refl _ _ _, hbody⟩
    · rw [List.getElem?_append_right hj.le] at ht
      rw [List.getElem?_eq_none (by simp; omega)] at ht
      cases ht
  | run i c op next inp r s hw hx =>
    obtain ⟨h₀, hr₀, hp⟩ := hsafe i _ hw _ rfl
    obtain ⟨hi, hrely, hn⟩ := hp cfg.hist inp r s hr₀ hinv hx hok
    refine ⟨hi, fun j t ht => ?_⟩
    by_cases hij : i = j
    · subst hij
      have hlt : i < cfg.threads.length := (List.getElem?_eq_some_iff.mp hw).1
      rw [List.getElem?_set_self hlt] at ht
      cases ht
      intro p hp
      cases hp
      exact ⟨_, U.refl _ _ _, hn⟩
    · rw [List.getElem?_set_ne hij] at ht
      exact (hsafe j t ht).later U (hrely j t.call (Ne.symm hij))
  | crash p =>
    obtain ⟨hi, hrely⟩ := U.crashed cfg.hist p hinv hok
    refine ⟨hi, fun j t ht => ?_⟩
    rw [List.getElem?_map] at ht
    obtain ⟨t₀, ht₀, rfl⟩ := Option.map_eq_some_iff.mp ht
    unfold Thread.kill
    split_ifs with hp
    · intro q hq
      cases hq
    · exact (hsafe j t₀ ht₀).later U (hrely j t₀.call hp)

theorem Contract.Upheld.okBefore (U : C.Upheld S Q) (hs : Step S cfg cfg') (hok : C.Ok cfg'.hist) :
    C.Ok cfg.hist := by
  cases hs <;> exact U.okPrefix _ _ _ hok

/-- The run rule. -/
theorem Contract.Upheld.run (U : C.Upheld S Q) (hstart : C.Inv ⟨[], s₀⟩) (hr : Reach S s₀ cfg)
    (hok : C.Ok cfg.hist) :
    C.Inv cfg.hist ∧ ∀ i t, cfg.threads[i]? = some t → ThreadSafe S C Q cfg.hist i t := by
  induction hr with
  | start => exact ⟨hstart, fun i t ht => by simp [Config.start] at ht⟩
  | step hr hs ih =>
    obtain ⟨hinv, hsafe⟩ := ih (U.okBefore hs hok)
    exact U.step hr hs hok hinv hsafe

/-- What a finished call leaves behind. -/
theorem Contract.Upheld.finished (U : C.Upheld S Q) (hstart : C.Inv ⟨[], s₀⟩) (hr : Reach S s₀ cfg)
    (hok : C.Ok cfg.hist) {i : ℕ} {c : Call} {o : Except Err Out}
    (ht : cfg.threads[i]? = some ⟨c, some (Prog.resume o)⟩) :
    ∃ h₀, C.Rely i c h₀ cfg.hist ∧ Q i c o h₀ := by
  obtain ⟨h₀, hrely, hs⟩ := (U.run hstart hr hok).2 i _ ht _ rfl
  refine ⟨h₀, hrely, ?_⟩
  cases o <;> exact hs

/-- Each step is one a bystander, who is no thread and whose process is alive, relies on. -/
theorem Contract.Upheld.bystander (U : C.Upheld S Q) (hstart : C.Inv ⟨[], s₀⟩) (hr : Reach S s₀ cfg)
    (hs : Step S cfg cfg') (hok : C.Ok cfg'.hist) {j : ℕ} {d : Call} (hj : cfg'.threads.length ≤ j)
    (hd : S.proc d ∉ cfg'.hist.dead) :
    C.Rely j d cfg.hist cfg'.hist := by
  obtain ⟨hinv, hsafe⟩ := U.run hstart hr (U.okBefore hs hok)
  cases hs with
  | begin c s alive adm =>
    simp only [List.length_append, List.length_singleton] at hj
    exact (U.began cfg.hist _ c s hinv (entriesOf_fresh hr le_rfl) alive adm hok).2.1 j d
      (by omega)
  | run i c op next inp r s hw hx =>
    have hi : i < cfg.threads.length := (List.getElem?_eq_some_iff.mp hw).1
    simp only [List.length_set] at hj
    obtain ⟨h₀, hr₀, hp⟩ := hsafe i _ hw _ rfl
    exact (hp cfg.hist inp r s hr₀ hinv hx hok).2.1 j d (by omega)
  | crash p =>
    refine (U.crashed cfg.hist p hinv hok).2 j d fun hp => hd ?_
    simp [hp]

/-- Every event of a run happened at a configuration the run came through. -/
theorem Reach.at_event (hr : Reach S s₀ cfg) {ev : Event Op Res Call Proc Input Shared}
    (he : cfg.hist.events = pre ++ ev :: post) :
    ∃ cfg₁ cfg₂, Reach S s₀ cfg₁ ∧ Step S cfg₁ cfg₂ ∧ Relation.ReflTransGen (Step S) cfg₂ cfg ∧
      cfg₁.hist.events = pre ∧ cfg₂.hist.events = pre ++ [ev] := by
  induction hr generalizing post with
  | start => simp [Config.start] at he
  | @step cfg cfg' hr hs ih =>
    have hpush : ∃ ev', cfg'.hist.events = cfg.hist.events ++ [ev'] := by
      cases hs <;> exact ⟨_, rfl⟩
    obtain ⟨ev', hev⟩ := hpush
    rcases List.eq_nil_or_concat post with rfl | ⟨post', last, rfl⟩
    · have heq := he.symm.trans hev
      obtain ⟨hpre, hl⟩ := List.append_inj' heq rfl
      exact ⟨cfg, cfg', hr, hs, .refl, hpre.symm, he⟩
    · have heq := hev.symm.trans he
      rw [List.concat_eq_append, ← List.cons_append, ← List.append_assoc] at heq
      obtain ⟨cfg₁, cfg₂, hr₁, hs₁, hlater, hpre, hev₂⟩ :=
        ih (List.append_inj' heq rfl).1
      exact ⟨cfg₁, cfg₂, hr₁, hs₁, hlater.tail hs, hpre, hev₂⟩

/-- A command in the history is one that ran there, on the state it names. -/
theorem Reach.ran (hr : Reach S s₀ cfg) {e : Entry Op Res Call Input Shared}
    (he : cfg.hist.events = pre ++ .ran e :: post) :
    ∃ cfg₁, Reach S s₀ cfg₁ ∧ cfg₁.hist = ⟨pre, e.before⟩ ∧
      S.exec e.op e.input e.before = some (e.res, e.after) ∧
      Relation.ReflTransGen (Step S) cfg₁ cfg := by
  obtain ⟨cfg₁, cfg₂, hr₁, hs, hlater, hpre, hev⟩ := hr.at_event he
  have heq : cfg₂.hist.events = cfg₁.hist.events ++ [.ran e] := by rw [hpre, hev]
  have hsteps := Relation.ReflTransGen.head hs hlater
  cases hs with
  | begin c s _ _ => simp at heq
  | crash p => simp at heq
  | run i c op next inp r s hw hx =>
    simp only [Hist.push_events, List.append_cancel_left_eq, List.cons.injEq, Event.ran.injEq,
      and_true] at heq
    subst heq
    exact ⟨cfg₁, hr₁, by cases h : cfg₁.hist; simp_all, hx, hsteps⟩

/-- The configuration right after a command. -/
theorem Reach.ran_after (hr : Reach S s₀ cfg) {e : Entry Op Res Call Input Shared}
    (he : cfg.hist.events = pre ++ .ran e :: post) :
    ∃ cfg₂, Reach S s₀ cfg₂ ∧ cfg₂.hist = ⟨pre ++ [.ran e], e.after⟩ ∧
      Relation.ReflTransGen (Step S) cfg₂ cfg := by
  obtain ⟨cfg₁, cfg₂, hr₁, hs, hlater, hpre, hev⟩ := hr.at_event he
  have heq : cfg₂.hist.events = cfg₁.hist.events ++ [.ran e] := by rw [hpre, hev]
  refine ⟨cfg₂, hr₁.step hs, ?_, hlater⟩
  cases hs with
  | begin c s _ _ => simp at heq
  | crash p => simp at heq
  | run i c op next inp r s hw hx =>
    simp only [Hist.push_events, List.append_cancel_left_eq, List.cons.injEq, Event.ran.injEq,
      and_true] at heq
    subst heq hpre
    rfl

/-- What every step of a run keeps, in the sense of a preorder, the run keeps. -/
theorem Reach.later
    {R : Hist Op Res Call Proc Input Shared → Hist Op Res Call Proc Input Shared → Prop}
    (refl : ∀ h, R h h) (trans : ∀ h₁ h₂ h₃, R h₁ h₂ → R h₂ h₃ → R h₁ h₃)
    (step : ∀ cfg cfg', Reach S s₀ cfg → Step S cfg cfg' → R cfg.hist cfg'.hist)
    (hr : Reach S s₀ cfg) (h : Relation.ReflTransGen (Step S) cfg cfg') :
    R cfg.hist cfg'.hist ∧ Reach S s₀ cfg' := by
  induction h with
  | refl => exact ⟨refl _, hr⟩
  | tail _ hs ih => exact ⟨trans _ _ _ ih.1 (step _ _ ih.2 hs), ih.2.step hs⟩

end Runs

end Wazir.Async
