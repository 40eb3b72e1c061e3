import Mathlib.Tactic

/-! Which status may follow which (`services/statusTransitions.ts`). -/

namespace Wazir.Core

inductive JobStatus where
  | pending
  | planning
  | ready
  | running
  | paused
  | completed
  | failed
  | cancelled
  deriving DecidableEq

inductive TaskStatus where
  | pending
  | queued
  | planning
  | scheduled
  | ready
  | running
  | waitingForApproval
  | verifying
  | paused
  | completed
  | failed
  | cancelled
  | blocked
  deriving DecidableEq

inductive AgentState where
  | idle
  | assigned
  | running
  | blocked
  | completed
  | failed
  | cancelled
  deriving DecidableEq

inductive ExecutionStatus where
  | pending
  | queued
  | planning
  | scheduled
  | ready
  | assigned
  | running
  | waiting
  | waitingForApproval
  | verifying
  | paused
  | blocked
  | completed
  | failed
  | cancelled
  deriving DecidableEq

def terminalJob : List JobStatus := [.completed, .failed, .cancelled]
def terminalTask : List TaskStatus := [.completed, .failed, .cancelled]
def taskRetryTargets : List TaskStatus := [.pending, .queued, .scheduled, .ready]
def terminalNode : List AgentState := [.completed, .failed, .cancelled]
def nodeRetryTargets : List AgentState := [.idle, .assigned]
def terminalExecution : List ExecutionStatus := [.completed, .failed, .cancelled]
def executionRetryTargets : List ExecutionStatus := [.pending, .queued, .scheduled, .ready]

/-- A terminal status is left only from `failed`, and then only to be tried again. -/
def canTransition {α : Type} [DecidableEq α] (failed : α) (terminal retryTargets : List α)
    (before after : α) : Bool :=
  if before = after then true
  else if before = failed then after ∈ retryTargets
  else before ∉ terminal

def canTransitionJob (before after : JobStatus) : Bool :=
  if before = after then true
  else if before = .cancelled ∧ after = .failed then true
  else before ∉ terminalJob

def canTransitionTask : TaskStatus → TaskStatus → Bool :=
  canTransition .failed terminalTask taskRetryTargets

def canTransitionNode : AgentState → AgentState → Bool :=
  canTransition .failed terminalNode nodeRetryTargets

def canTransitionExecution : ExecutionStatus → ExecutionStatus → Bool :=
  canTransition .failed terminalExecution executionRetryTargets

theorem canTransition_terminal {α : Type} [DecidableEq α] {failed before after : α}
    {terminal retryTargets : List α} (h : canTransition failed terminal retryTargets before after)
    (hterminal : before ∈ terminal) : after = before ∨ before = failed ∧ after ∈ retryTargets := by
  unfold canTransition at h
  split_ifs at h with heq hfailed
  · exact .inl heq.symm
  · exact .inr ⟨hfailed, by simpa using h⟩
  · simp [hterminal] at h

end Wazir.Core
