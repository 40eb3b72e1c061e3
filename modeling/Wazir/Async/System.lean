import Mathlib.Logic.Relation
import Wazir.Async.Prog

/-! Many procedures over one shared state. A system says which calls clients make, which
procedure each call runs, what a command does to the shared state, and what a crashed
process leaves behind. A run lets any procedure in progress take its next command, in any
order; every event is kept with the states around it. -/

namespace Wazir.Async

/-- `exec` is one atomic command under what the environment supplies (a clock reading, a
random token, the answer of an outside service); `none` means that it has to wait. -/
structure System (Op : Type) (Res : Op → Type) (Err Out Call Proc Input Shared : Type) where
  body : Call → Prog Op Res Err Out
  proc : Call → Proc
  exec : (op : Op) → Input → Shared → Option (Res op × Shared)
  admits : Call → Shared → Option Shared
  crash : Proc → Shared → Shared

/-- One executed command: who ran it, what came back, and the states before and after. -/
structure Entry (Op : Type) (Res : Op → Type) (Call Input Shared : Type) where
  thread : ℕ
  call : Call
  op : Op
  input : Input
  res : Res op
  before : Shared
  after : Shared

inductive Event (Op : Type) (Res : Op → Type) (Call Proc Input Shared : Type) where
  | began (thread : ℕ) (call : Call)
  | ran (entry : Entry Op Res Call Input Shared)
  | crashed (proc : Proc)

/-- The events so far, oldest first, and the present shared state. -/
structure Hist (Op : Type) (Res : Op → Type) (Call Proc Input Shared : Type) where
  events : List (Event Op Res Call Proc Input Shared)
  shared : Shared

/-- A call and what is left of its procedure; `none` once its process has crashed. -/
structure Thread (Op : Type) (Res : Op → Type) (Err Out Call : Type) where
  call : Call
  rest : Option (Prog Op Res Err Out)

structure Config (Op : Type) (Res : Op → Type) (Err Out Call Proc Input Shared : Type) where
  hist : Hist Op Res Call Proc Input Shared
  threads : List (Thread Op Res Err Out Call)

variable {Op : Type} {Res : Op → Type} {Err Out Call Proc Input Shared : Type}

namespace Event

def thread : Event Op Res Call Proc Input Shared → Option ℕ
  | .began i _ => some i
  | .ran e => some e.thread
  | .crashed _ => none

def entry : Event Op Res Call Proc Input Shared → Option (Entry Op Res Call Input Shared)
  | .ran e => some e
  | _ => none

def crashedProc : Event Op Res Call Proc Input Shared → Option Proc
  | .crashed p => some p
  | _ => none

end Event

namespace Hist

def push (h : Hist Op Res Call Proc Input Shared) (ev : Event Op Res Call Proc Input Shared)
    (s : Shared) : Hist Op Res Call Proc Input Shared :=
  ⟨h.events ++ [ev], s⟩

/-- All executed commands, oldest first. -/
def entries (h : Hist Op Res Call Proc Input Shared) : List (Entry Op Res Call Input Shared) :=
  h.events.filterMap Event.entry

/-- The commands executed by thread `i`. -/
def entriesOf (h : Hist Op Res Call Proc Input Shared) (i : ℕ) :
    List (Entry Op Res Call Input Shared) :=
  h.entries.filter fun e => e.thread = i

/-- The processes that have crashed. -/
def dead (h : Hist Op Res Call Proc Input Shared) : List Proc :=
  h.events.filterMap Event.crashedProc

@[simp] theorem push_shared (h : Hist Op Res Call Proc Input Shared)
    (ev : Event Op Res Call Proc Input Shared) (s : Shared) : (h.push ev s).shared = s := rfl

@[simp] theorem push_events (h : Hist Op Res Call Proc Input Shared)
    (ev : Event Op Res Call Proc Input Shared) (s : Shared) :
    (h.push ev s).events = h.events ++ [ev] := rfl

@[simp] theorem entries_push_began (h : Hist Op Res Call Proc Input Shared) (i : ℕ) (c : Call)
    (s : Shared) : (h.push (.began i c) s).entries = h.entries := by
  simp [entries, Event.entry]

@[simp] theorem entries_push_ran (h : Hist Op Res Call Proc Input Shared)
    (e : Entry Op Res Call Input Shared) (s : Shared) :
    (h.push (.ran e) s).entries = h.entries ++ [e] := by
  simp [entries, Event.entry]

@[simp] theorem entries_push_crashed (h : Hist Op Res Call Proc Input Shared) (p : Proc)
    (s : Shared) : (h.push (.crashed p) s).entries = h.entries := by
  simp [entries, Event.entry]

@[simp] theorem dead_push_began (h : Hist Op Res Call Proc Input Shared) (i : ℕ) (c : Call)
    (s : Shared) : (h.push (.began i c) s).dead = h.dead := by
  simp [dead, Event.crashedProc]

@[simp] theorem dead_push_ran (h : Hist Op Res Call Proc Input Shared)
    (e : Entry Op Res Call Input Shared) (s : Shared) : (h.push (.ran e) s).dead = h.dead := by
  simp [dead, Event.crashedProc]

@[simp] theorem dead_push_crashed (h : Hist Op Res Call Proc Input Shared) (p : Proc)
    (s : Shared) : (h.push (.crashed p) s).dead = h.dead ++ [p] := by
  simp [dead, Event.crashedProc]

theorem entriesOf_push_ran (h : Hist Op Res Call Proc Input Shared)
    (e : Entry Op Res Call Input Shared) (s : Shared) (i : ℕ) :
    (h.push (.ran e) s).entriesOf i = h.entriesOf i ++ if e.thread = i then [e] else [] := by
  simp only [entriesOf, entries_push_ran, List.filter_append, List.filter_cons, List.filter_nil]
  split_ifs <;> simp_all

@[simp] theorem entriesOf_push_began (h : Hist Op Res Call Proc Input Shared) (i j : ℕ)
    (c : Call) (s : Shared) : (h.push (.began i c) s).entriesOf j = h.entriesOf j := by
  simp [entriesOf]

@[simp] theorem entriesOf_push_crashed (h : Hist Op Res Call Proc Input Shared) (p : Proc)
    (s : Shared) (j : ℕ) : (h.push (.crashed p) s).entriesOf j = h.entriesOf j := by
  simp [entriesOf]

variable {h : Hist Op Res Call Proc Input Shared}

/-- Where a command may stand in a history with one event more. -/
theorem split_push {ev : Event Op Res Call Proc Input Shared} {s : Shared}
    {e : Entry Op Res Call Input Shared} {pre post : List (Event Op Res Call Proc Input Shared)}
    (he : (h.push ev s).events = pre ++ .ran e :: post) :
    (∃ post', h.events = pre ++ .ran e :: post') ∨ ev = .ran e ∧ pre = h.events := by
  rw [push_events] at he
  rcases List.eq_nil_or_concat post with rfl | ⟨post', last, rfl⟩
  · obtain ⟨hpre, hl⟩ := List.append_inj' he rfl
    exact .inr ⟨by simpa using hl, hpre.symm⟩
  · rw [List.concat_eq_append, ← List.cons_append, ← List.append_assoc] at he
    exact .inl ⟨post', (List.append_inj' he rfl).1⟩

/-- Every command of the history satisfies `P` in the history it ran in. -/
def Always (P : Hist Op Res Call Proc Input Shared → Entry Op Res Call Input Shared → Prop)
    (h : Hist Op Res Call Proc Input Shared) : Prop :=
  ∀ pre e post, h.events = pre ++ .ran e :: post → P ⟨pre, e.before⟩ e

/-- A check of `Always` from the events `pre` on. -/
def checkFrom (p : Hist Op Res Call Proc Input Shared → Entry Op Res Call Input Shared → Bool)
    (pre : List (Event Op Res Call Proc Input Shared)) :
    List (Event Op Res Call Proc Input Shared) → Bool
  | [] => true
  | .ran e :: rest => p ⟨pre, e.before⟩ e && checkFrom p (pre ++ [.ran e]) rest
  | ev :: rest => checkFrom p (pre ++ [ev]) rest

variable {P : Hist Op Res Call Proc Input Shared → Entry Op Res Call Input Shared → Prop}

theorem always_of_check
    {p : Hist Op Res Call Proc Input Shared → Entry Op Res Call Input Shared → Bool}
    (hp : ∀ h e, p h e = true → P h e) (hc : checkFrom p [] h.events = true) : h.Always P := by
  have from_pre : ∀ evs pre₀, checkFrom p pre₀ evs = true → ∀ pre e post,
      evs = pre ++ .ran e :: post → P ⟨pre₀ ++ pre, e.before⟩ e := by
    intro evs
    induction evs with
    | nil => intro pre₀ _ pre e post he; simp at he
    | cons ev rest ih =>
      intro pre₀ hcheck pre e post he
      have hrest : checkFrom p (pre₀ ++ [ev]) rest = true := by
        cases ev with
        | ran e' => exact (Bool.and_eq_true_iff.mp hcheck).2
        | began i c => exact hcheck
        | crashed q => exact hcheck
      cases pre with
      | nil =>
        cases he
        rw [List.append_nil]
        exact hp _ _ (Bool.and_eq_true_iff.mp hcheck).1
      | cons ev' pre =>
        cases he
        have := ih (pre₀ ++ [ev]) hrest pre e post rfl
        rwa [List.append_assoc, List.singleton_append] at this
  exact fun pre e post he => by simpa using from_pre h.events [] hc pre e post he

theorem Always.past {ev : Event Op Res Call Proc Input Shared} {s : Shared}
    (ha : (h.push ev s).Always P) : h.Always P := fun pre e post he =>
  ha pre e (post ++ [ev]) (by rw [push_events, he]; simp)

theorem Always.upTo {pre post : List (Event Op Res Call Proc Input Shared)} {s : Shared}
    (ha : h.Always P) (he : h.events = pre ++ post) :
    Always P (⟨pre, s⟩ : Hist Op Res Call Proc Input Shared) := fun pre' e post' he' =>
  ha pre' e (post' ++ post) (by rw [he]; simp [show pre = pre' ++ .ran e :: post' from he'])

theorem Always.last {e : Entry Op Res Call Input Shared} {s : Shared}
    (ha : (h.push (.ran e) s).Always P) (hb : e.before = h.shared) : P h e := by
  have := ha h.events e [] rfl
  rwa [hb] at this

end Hist

/-- No call made yet. -/
def Config.start (s : Shared) : Config Op Res Err Out Call Proc Input Shared := ⟨⟨[], s⟩, []⟩

/-- The call of thread `i` and the value it returned. -/
def Config.returned (cfg : Config Op Res Err Out Call Proc Input Shared) (i : ℕ) :
    Option (Call × Out) :=
  match cfg.threads[i]? with
  | some ⟨c, some (.ret a)⟩ => some (c, a)
  | _ => none

theorem Config.returned_eq_some {cfg : Config Op Res Err Out Call Proc Input Shared} {i : ℕ}
    {c : Call} {a : Out} (h : cfg.returned i = some (c, a)) :
    cfg.threads[i]? = some ⟨c, some (.ret a)⟩ := by
  unfold Config.returned at h
  split at h
  · rename_i ht
    cases h
    exact ht
  · cases h

section Steps

variable (S : System Op Res Err Out Call Proc Input Shared)

/-- A process crash ends every procedure the process was running. -/
def Thread.kill [DecidableEq Proc] (p : Proc) (t : Thread Op Res Err Out Call) :
    Thread Op Res Err Out Call :=
  if S.proc t.call = p then { t with rest := none } else t

inductive Step [DecidableEq Proc] :
    Config Op Res Err Out Call Proc Input Shared →
    Config Op Res Err Out Call Proc Input Shared → Prop
  | begin (cfg) (c : Call) (s : Shared) (alive : S.proc c ∉ cfg.hist.dead)
      (admitted : S.admits c cfg.hist.shared = some s) :
      Step cfg ⟨cfg.hist.push (.began cfg.threads.length c) s,
        cfg.threads ++ [⟨c, some (S.body c)⟩]⟩
  | run (cfg) (i : ℕ) (c : Call) (op : Op) (next : Res op → Prog Op Res Err Out) (inp : Input)
      (r : Res op) (s : Shared) (waiting : cfg.threads[i]? = some ⟨c, some (.call op next)⟩)
      (executed : S.exec op inp cfg.hist.shared = some (r, s)) :
      Step cfg ⟨cfg.hist.push (.ran ⟨i, c, op, inp, r, cfg.hist.shared, s⟩) s,
        cfg.threads.set i ⟨c, some (next r)⟩⟩
  | crash (cfg) (p : Proc) :
      Step cfg ⟨cfg.hist.push (.crashed p) (S.crash p cfg.hist.shared),
        cfg.threads.map (Thread.kill S p)⟩

/-- The configurations some run from `s` comes to. -/
inductive Reach [DecidableEq Proc] (s : Shared) :
    Config Op Res Err Out Call Proc Input Shared → Prop
  | start : Reach s (Config.start s)
  | step {cfg cfg'} : Reach s cfg → Step S cfg cfg' → Reach s cfg'

/-- What a scheduler chooses: a new call, the next command of a thread, or a crash. -/
inductive Action (Call Proc Input : Type) where
  | begin (c : Call)
  | run (thread : ℕ) (inp : Input)
  | crash (p : Proc)

variable [DecidableEq Proc]

/-- One scheduled action, `none` when it is not possible. -/
def act (cfg : Config Op Res Err Out Call Proc Input Shared) :
    Action Call Proc Input → Option (Config Op Res Err Out Call Proc Input Shared)
  | .begin c =>
    if S.proc c ∈ cfg.hist.dead then none
    else (S.admits c cfg.hist.shared).map fun s =>
      ⟨cfg.hist.push (.began cfg.threads.length c) s, cfg.threads ++ [⟨c, some (S.body c)⟩]⟩
  | .run i inp =>
    match cfg.threads[i]? with
    | some ⟨c, some (.call op next)⟩ =>
      (S.exec op inp cfg.hist.shared).map fun rs =>
        ⟨cfg.hist.push (.ran ⟨i, c, op, inp, rs.1, cfg.hist.shared, rs.2⟩) rs.2,
          cfg.threads.set i ⟨c, some (next rs.1)⟩⟩
    | _ => none
  | .crash p =>
    some ⟨cfg.hist.push (.crashed p) (S.crash p cfg.hist.shared),
      cfg.threads.map (Thread.kill S p)⟩

/-- A whole schedule. -/
def schedule : List (Action Call Proc Input) → Config Op Res Err Out Call Proc Input Shared →
    Option (Config Op Res Err Out Call Proc Input Shared)
  | [], cfg => some cfg
  | a :: rest, cfg => (act S cfg a).bind (schedule rest)

variable {S}

/-- A property of the history that new calls, commands and crashes keep holds in every run,
whatever procedures the calls run. -/
theorem Reach.invariant {s : Shared}
    {I : Hist Op Res Call Proc Input Shared → Prop} (start : I ⟨[], s⟩)
    (began : ∀ h i c s', I h → S.admits c h.shared = some s' → I (h.push (.began i c) s'))
    (ran : ∀ h i c op inp r s', I h → S.exec op inp h.shared = some (r, s') →
      I (h.push (.ran ⟨i, c, op, inp, r, h.shared, s'⟩) s'))
    (crashed : ∀ h p, I h → I (h.push (.crashed p) (S.crash p h.shared)))
    {cfg : Config Op Res Err Out Call Proc Input Shared} (hr : Reach S s cfg) : I cfg.hist := by
  induction hr with
  | start => exact start
  | step _ hs ih =>
    cases hs with
    | begin c s' _ admitted => exact began _ _ _ _ ih admitted
    | run i c op next inp r s' _ executed => exact ran _ _ _ _ _ _ _ ih executed
    | crash p => exact crashed _ _ ih

variable {cfg cfg' : Config Op Res Err Out Call Proc Input Shared}

theorem act_step {a : Action Call Proc Input} (h : act S cfg a = some cfg') : Step S cfg cfg' := by
  cases a with
  | begin c =>
    simp only [act] at h
    split_ifs at h with hd
    obtain ⟨s, hs, rfl⟩ := Option.map_eq_some_iff.mp h
    exact .begin cfg c s hd hs
  | run i inp =>
    simp only [act] at h
    split at h
    · rename_i c op next hw
      obtain ⟨⟨r, s⟩, hx, rfl⟩ := Option.map_eq_some_iff.mp h
      exact .run cfg i c op next inp r s hw hx
    · cases h
  | crash p =>
    simp only [act, Option.some.injEq] at h
    subst h
    exact .crash cfg p

variable {acts : List (Action Call Proc Input)}

theorem schedule_steps (h : schedule S acts cfg = some cfg') :
    Relation.ReflTransGen (Step S) cfg cfg' := by
  induction acts generalizing cfg with
  | nil => cases h; exact .refl
  | cons a rest ih =>
    obtain ⟨cfg₁, ha, hrest⟩ := Option.bind_eq_some_iff.mp h
    exact .head (act_step ha) (ih hrest)

theorem schedule_reach {s : Shared} (hr : Reach S s cfg) (h : schedule S acts cfg = some cfg') :
    Reach S s cfg' := by
  induction acts generalizing cfg with
  | nil => cases h; exact hr
  | cons a rest ih =>
    obtain ⟨cfg₁, ha, hrest⟩ := Option.bind_eq_some_iff.mp h
    exact ih (hr.step (act_step ha)) hrest

/-- A schedule that can be run and passes a check is a run that does. -/
theorem Reach.of_check {s : Shared} {p : Config Op Res Err Out Call Proc Input Shared → Bool}
    (h : (schedule S acts (.start s)).any p = true) : ∃ cfg, Reach S s cfg ∧ p cfg = true := by
  obtain ⟨cfg, hrun, hp⟩ := (Option.any_eq_true _ _).mp h
  exact ⟨cfg, schedule_reach .start hrun, hp⟩

end Steps

end Wazir.Async
