import Rblib.Pipelines.Polling

/-! The course of a payload job, apart from how it is polled: `before_job` on every step, the steps
one after the other, `after_job` on every step, and the announcement of the result. -/

namespace Rblib.Pipelines

open Platform

variable {σ Ck ε Err Pl : Type}

inductive JobPhase (σ Ck Err Pl : Type)
  | opening (todo : List (StepPath × σ))
  | calledBefore (path : StepPath) (todo : List (StepPath × σ))
  | ready (input : Ck)
  | running (path : StepPath)
  | closing (output : Except Err Pl) (todo : List (StepPath × σ))
  | calledAfter (output : Except Err Pl) (path : StepPath) (todo : List (StepPath × σ))
  | resolved (output : Except Err Pl)

inductive Protocol (job : Job σ Ck ε Err Pl) : JobPhase σ Ck Err Pl → List (Act σ Ck ε Err Pl) → Prop
  | started : Protocol job (.opening job.pipeline.root.stepsOf) [.jobStarted]
  | beforeJob {path s todo log} (ctx : StepContext ε) : Protocol job (.opening ((path, s) :: todo)) log →
      Protocol job (.calledBefore path todo) (log ++ [.hook .beforeJob path s ctx])
  | beforeJobOk {path todo log} : Protocol job (.calledBefore path todo) log →
      Protocol job (.opening todo) (log ++ [.hookDone .beforeJob path (.ok ())])
  | beforeJobError {path todo log} (e : Err) : Protocol job (.calledBefore path todo) log →
      Protocol job (.closing (.error e) job.pipeline.root.stepsOf)
        (log ++ [.hookDone .beforeJob path (.error e)])
  | opened {log} : Protocol job (.opening []) log → Protocol job (.ready job.start) log
  | step {input log} (path : StepPath) (s : σ) (ctx : StepContext ε) : Protocol job (.ready input) log →
      Protocol job (.running path) (log ++ [.step path s input ctx])
  | stepOk {path log output c} : Protocol job (.running path) log → output.checkpoint = some c →
      Protocol job (.ready c) (log ++ [.stepDone path output])
  | stepFail {path log} (e : Err) : Protocol job (.running path) log →
      Protocol job (.closing (.error e) job.pipeline.root.stepsOf) (log ++ [.stepDone path (.fail e)])
  | build {c log} : Protocol job (.ready c) log →
      Protocol job (.closing (job.buildPayload c) job.pipeline.root.stepsOf) log
  | afterJob {output path s todo log} (ctx : StepContext ε) :
      Protocol job (.closing output ((path, s) :: todo)) log →
      Protocol job (.calledAfter output path todo) (log ++ [.hook (.afterJob output) path s ctx])
  | afterJobOk {output path todo log} : Protocol job (.calledAfter output path todo) log →
      Protocol job (.closing output todo) (log ++ [.hookDone (.afterJob output) path (.ok ())])
  | afterJobError {output path todo log} (e : Err) : Protocol job (.calledAfter output path todo) log →
      Protocol job (.resolved (.error e))
        (log ++ [.hookDone (.afterJob output) path (.error e)] ++ [.announce (.error e)])
  | closed {output log} : Protocol job (.closing output []) log →
      Protocol job (.resolved output) (log ++ [.announce output])

namespace Act

def beforeJobCall : Act σ Ck ε Err Pl → Option (StepPath × σ)
  | hook .beforeJob path s _ => some (path, s)
  | _ => none

def afterJobCall : Act σ Ck ε Err Pl → Option (StepPath × σ)
  | hook (.afterJob _) path s _ => some (path, s)
  | _ => none

def beforeJobFails : Act σ Ck ε Err Pl → Bool
  | hookDone .beforeJob _ (.error _) => true
  | _ => false

def afterJobFails : Act σ Ck ε Err Pl → Option StepPath
  | hookDone (.afterJob _) path (.error _) => some path
  | _ => none

def stepFails : Act σ Ck ε Err Pl → Bool
  | stepDone _ (.fail _) => true
  | _ => false

def isStep : Act σ Ck ε Err Pl → Bool
  | step _ _ _ _ => true
  | _ => false

def fails (a : Act σ Ck ε Err Pl) : Bool := a.beforeJobFails || a.stepFails || a.afterJobFails.isSome

def verdict : Act σ Ck ε Err Pl → Option (Except Err Pl)
  | jobCompleted payload => some (.ok payload)
  | jobFailed error => some (.error error)
  | _ => none

/-- What may come after an act: after a failure or the first `after_job` no step, and after these or a step
no `before_job`. -/
structure Allows (a b : Act σ Ck ε Err Pl) : Prop where
  step : a.beforeJobFails = true ∨ a.stepFails = true ∨ a.afterJobCall.isSome = true → b.isStep = false
  beforeJob : a.beforeJobFails = true ∨ a.isStep = true ∨ a.afterJobCall.isSome = true →
    b.beforeJobCall = none

def stage : Act σ Ck ε Err Pl → ℕ
  | jobStarted => 0
  | hook .beforeJob _ _ _ => 0
  | hookDone .beforeJob _ (.ok _) => 0
  | step _ _ _ _ => 1
  | stepDone _ (.ok _) => 1
  | stepDone _ (.brk _) => 1
  | hookDone .beforeJob _ (.error _) => 2
  | stepDone _ (.fail _) => 2
  | _ => 3

@[simp] lemma verdict_announce (output : Except Err Pl) :
    (announce output : Act σ Ck ε Err Pl).verdict = some output := by
  cases output <;> rfl

lemma allows_of_stage {a b : Act σ Ck ε Err Pl} (h : a.stage ≤ b.stage) : a.Allows b := by
  constructor
  · intro ha
    have hs : 2 ≤ a.stage := by
      rcases ha with ha | ha | ha
      · unfold beforeJobFails at ha
        split at ha <;> simp_all [stage]
      · unfold stepFails at ha
        split at ha <;> simp_all [stage]
      · unfold afterJobCall at ha
        split at ha <;> simp_all [stage]
    cases b with
    | step path s input ctx =>
      have : (step path s input ctx : Act σ Ck ε Err Pl).stage = 1 := rfl
      omega
    | _ => rfl
  · intro ha
    have hs : 1 ≤ a.stage := by
      rcases ha with ha | ha | ha
      · unfold beforeJobFails at ha
        split at ha <;> simp_all [stage]
      · unfold isStep at ha
        split at ha <;> simp_all [stage]
      · unfold afterJobCall at ha
        split at ha <;> simp_all [stage]
    unfold beforeJobCall
    split
    · have hz : a.stage ≤ 0 := h
      omega
    · rfl

end Act

def handed (c : Ck) : List (Act σ Ck ε Err Pl) → Ck
  | [] => c
  | .stepDone _ output :: log => handed (output.checkpoint.getD c) log
  | _ :: log => handed c log

def Threaded (c : Ck) : List (Act σ Ck ε Err Pl) → Prop
  | [] => True
  | .step _ _ input _ :: log => input = c ∧ Threaded c log
  | .stepDone _ output :: log => Threaded (output.checkpoint.getD c) log
  | _ :: log => Threaded c log

lemma handed_append (c : Ck) (log log' : List (Act σ Ck ε Err Pl)) :
    handed c (log ++ log') = handed (handed c log) log' := by
  induction log generalizing c with
  | nil => rfl
  | cons a log ih =>
    cases a with
    | stepDone path output => exact ih _
    | _ => exact ih c

lemma threaded_append (c : Ck) (log log' : List (Act σ Ck ε Err Pl)) :
    Threaded c (log ++ log') ↔ Threaded c log ∧ Threaded (handed c log) log' := by
  induction log generalizing c with
  | nil => simp [Threaded, handed]
  | cons a log ih =>
    cases a with
    | stepDone path output => exact ih _
    | step path s input ctx =>
      rw [List.cons_append, Threaded, Threaded, ih c, and_assoc]
      rfl
    | _ => exact ih c

namespace Protocol

variable {job : Job σ Ck ε Err Pl} {phase : JobPhase σ Ck Err Pl} {log : List (Act σ Ck ε Err Pl)}

section Order

lemma staged_concat {log : List (Act σ Ck ε Err Pl)} {a : Act σ Ck ε Err Pl} {m n : ℕ}
    (h : log.Pairwise (fun a b => a.stage ≤ b.stage) ∧ ∀ a ∈ log, a.stage ≤ m) (hm : m ≤ a.stage)
    (hn : a.stage ≤ n) :
    (log ++ [a]).Pairwise (fun a b => a.stage ≤ b.stage) ∧ ∀ b ∈ log ++ [a], b.stage ≤ n := by
  constructor
  · refine List.pairwise_append.mpr ⟨h.1, List.pairwise_singleton _ _, fun b hb c hc => ?_⟩
    cases List.mem_singleton.mp hc
    exact (h.2 b hb).trans hm
  · intro b hb
    rcases List.mem_append.mp hb with hb | hb
    · exact (h.2 b hb).trans (hm.trans hn)
    · cases List.mem_singleton.mp hb
      exact hn

lemma staged_mono {log : List (Act σ Ck ε Err Pl)} {m n : ℕ}
    (h : log.Pairwise (fun a b => a.stage ≤ b.stage) ∧ ∀ a ∈ log, a.stage ≤ m) (hmn : m ≤ n) :
    log.Pairwise (fun a b => a.stage ≤ b.stage) ∧ ∀ a ∈ log, a.stage ≤ n :=
  ⟨h.1, fun a ha => (h.2 a ha).trans hmn⟩

def phaseStage : JobPhase σ Ck Err Pl → ℕ
  | .opening _ => 0
  | .calledBefore _ _ => 0
  | .ready _ => 1
  | .running _ => 1
  | _ => 3

lemma staged (h : Protocol job phase log) :
    log.Pairwise (fun a b => a.stage ≤ b.stage) ∧ ∀ a ∈ log, a.stage ≤ phaseStage phase := by
  induction h with
  | started => exact ⟨List.pairwise_singleton _ _, by simp [Act.stage]⟩
  | beforeJob ctx _ ih => exact staged_concat ih le_rfl le_rfl
  | beforeJobOk _ ih => exact staged_concat ih le_rfl le_rfl
  | beforeJobError e _ ih => exact staged_concat ih (Nat.zero_le 2) (show 2 ≤ 3 by omega)
  | opened _ ih => exact staged_mono ih (Nat.zero_le 1)
  | step path s ctx _ ih => exact staged_concat ih le_rfl le_rfl
  | @stepOk path log output c _ hc ih =>
    cases output with
    | fail e => cases hc
    | brk c' => exact staged_concat ih le_rfl le_rfl
    | ok c' => exact staged_concat ih le_rfl le_rfl
  | stepFail e _ ih => exact staged_concat ih (show 1 ≤ 2 by omega) (show 2 ≤ 3 by omega)
  | build _ ih => exact staged_mono ih (show 1 ≤ 3 by omega)
  | afterJob ctx _ ih => exact staged_concat ih le_rfl le_rfl
  | afterJobOk _ ih => exact staged_concat ih le_rfl le_rfl
  | afterJobError e _ ih => exact staged_concat (staged_concat ih le_rfl le_rfl) le_rfl le_rfl
  | @closed output log _ ih => cases output <;> exact staged_concat ih le_rfl le_rfl

theorem ordered (h : Protocol job phase log) : log.Pairwise Act.Allows :=
  h.staged.1.imp Act.allows_of_stage

end Order

section Calls

def BeforeEnded (job : Job σ Ck ε Err Pl) (log : List (Act σ Ck ε Err Pl)) : Prop :=
  (log.filterMap Act.beforeJobCall = job.pipeline.root.stepsOf ∧ ∀ a ∈ log, a.beforeJobFails = false) ∨
    (log.filterMap Act.beforeJobCall <+: job.pipeline.root.stepsOf ∧ (∃ a ∈ log, a.beforeJobFails = true) ∧
      ∀ a ∈ log, a.isStep = false)

def BeforeCalls (job : Job σ Ck ε Err Pl) (log : List (Act σ Ck ε Err Pl)) : JobPhase σ Ck Err Pl → Prop
  | .opening todo => log.filterMap Act.beforeJobCall ++ todo = job.pipeline.root.stepsOf ∧
      ∀ a ∈ log, a.beforeJobFails = false ∧ a.isStep = false
  | .calledBefore _ todo => log.filterMap Act.beforeJobCall ++ todo = job.pipeline.root.stepsOf ∧
      ∀ a ∈ log, a.beforeJobFails = false ∧ a.isStep = false
  | .ready _ => log.filterMap Act.beforeJobCall = job.pipeline.root.stepsOf ∧
      ∀ a ∈ log, a.beforeJobFails = false
  | .running _ => log.filterMap Act.beforeJobCall = job.pipeline.root.stepsOf ∧
      ∀ a ∈ log, a.beforeJobFails = false
  | .closing _ _ => BeforeEnded job log
  | .calledAfter _ _ _ => BeforeEnded job log
  | .resolved _ => BeforeEnded job log

lemma forall_concat {α : Type} {Q : α → Prop} {l : List α} {a : α} (h : ∀ b ∈ l, Q b) (ha : Q a) :
    ∀ b ∈ l ++ [a], Q b := by
  intro b hb
  rcases List.mem_append.mp hb with hb | hb
  · exact h b hb
  · exact List.mem_singleton.mp hb ▸ ha

lemma filterMap_concat_none {α β : Type} {f : α → Option β} {a : α} (h : f a = none) (l : List α) :
    (l ++ [a]).filterMap f = l.filterMap f := by
  rw [List.filterMap_append, List.filterMap_cons_none h, List.filterMap_nil, List.append_nil]

lemma BeforeEnded.concat {a : Act σ Ck ε Err Pl} (h : BeforeEnded job log) (hc : a.beforeJobCall = none)
    (hf : a.beforeJobFails = false) (hs : a.isStep = false) : BeforeEnded job (log ++ [a]) := by
  rw [BeforeEnded, filterMap_concat_none hc]
  rcases h with ⟨he, hok⟩ | ⟨hp, ⟨b, hb, hbf⟩, hno⟩
  · exact .inl ⟨he, forall_concat hok hf⟩
  · exact .inr ⟨hp, ⟨b, List.mem_append_left _ hb, hbf⟩, forall_concat hno hs⟩

theorem beforeCalls (h : Protocol job phase log) : BeforeCalls job log phase := by
  induction h with
  | started => exact ⟨rfl, by simp [Act.beforeJobFails, Act.isStep]⟩
  | @beforeJob path s todo log ctx _ ih =>
    refine ⟨?_, forall_concat ih.2 ⟨rfl, rfl⟩⟩
    rw [List.filterMap_append, List.append_assoc]
    exact ih.1
  | beforeJobOk _ ih =>
    refine ⟨?_, forall_concat ih.2 ⟨rfl, rfl⟩⟩
    rw [filterMap_concat_none rfl]
    exact ih.1
  | @beforeJobError path todo log e _ ih =>
    refine .inr ⟨?_, ⟨_, List.mem_append_right _ (List.mem_singleton_self _), rfl⟩,
      forall_concat (fun a ha => (ih.2 a ha).2) rfl⟩
    rw [filterMap_concat_none rfl, ← ih.1]
    exact List.prefix_append _ _
  | opened _ ih => exact ⟨by simpa using ih.1, fun a ha => (ih.2 a ha).1⟩
  | step path s ctx _ ih =>
    refine ⟨?_, forall_concat ih.2 rfl⟩
    rw [filterMap_concat_none rfl]
    exact ih.1
  | stepOk _ _ ih =>
    refine ⟨?_, forall_concat ih.2 rfl⟩
    rw [filterMap_concat_none rfl]
    exact ih.1
  | stepFail e _ ih =>
    refine .inl ⟨?_, forall_concat ih.2 rfl⟩
    rw [filterMap_concat_none rfl]
    exact ih.1
  | build _ ih => exact .inl ih
  | afterJob ctx _ ih => exact BeforeEnded.concat ih rfl rfl rfl
  | afterJobOk _ ih => exact BeforeEnded.concat ih rfl rfl rfl
  | afterJobError e _ ih => exact (BeforeEnded.concat ih rfl rfl rfl).concat rfl rfl rfl
  | @closed output log _ ih =>
    cases output with
    | error e => exact BeforeEnded.concat ih rfl rfl rfl
    | ok payload => exact BeforeEnded.concat ih rfl rfl rfl

def isOpening : JobPhase σ Ck Err Pl → Bool
  | .opening _ => true
  | .calledBefore _ _ => true
  | _ => false

lemma beforeEnded (h : Protocol job phase log) (hp : isOpening phase = false) : BeforeEnded job log := by
  have hcalls := h.beforeCalls
  cases phase with
  | opening todo => cases hp
  | calledBefore path todo => cases hp
  | ready input => exact .inl hcalls
  | running path => exact .inl hcalls
  | closing output todo => exact hcalls
  | calledAfter output path todo => exact hcalls
  | resolved output => exact hcalls

lemma beforeOpening (h : Protocol job phase log) (hp : isOpening phase = true) :
    log.filterMap Act.beforeJobCall <+: job.pipeline.root.stepsOf ∧
      ∀ a ∈ log, a.beforeJobFails = false ∧ a.isStep = false := by
  have hcalls := h.beforeCalls
  cases phase with
  | opening todo => exact ⟨⟨todo, hcalls.1⟩, hcalls.2⟩
  | calledBefore path todo => exact ⟨⟨todo, hcalls.1⟩, hcalls.2⟩
  | _ => cases hp

def AfterCalls (job : Job σ Ck ε Err Pl) (log : List (Act σ Ck ε Err Pl)) : JobPhase σ Ck Err Pl → Prop
  | .closing _ todo => log.filterMap Act.afterJobCall ++ todo = job.pipeline.root.stepsOf ∧
      log.filterMap Act.afterJobFails = []
  | .calledAfter _ path todo => ∃ done s, log.filterMap Act.afterJobCall = done ++ [(path, s)] ∧
      done ++ (path, s) :: todo = job.pipeline.root.stepsOf ∧ log.filterMap Act.afterJobFails = []
  | .resolved _ => (log.filterMap Act.afterJobCall = job.pipeline.root.stepsOf ∧
        log.filterMap Act.afterJobFails = []) ∨
      ∃ done path s todo, log.filterMap Act.afterJobCall = done ++ [(path, s)] ∧
        done ++ (path, s) :: todo = job.pipeline.root.stepsOf ∧ log.filterMap Act.afterJobFails = [path]
  | .opening _ => log.filterMap Act.afterJobCall = [] ∧ log.filterMap Act.afterJobFails = []
  | .calledBefore _ _ => log.filterMap Act.afterJobCall = [] ∧ log.filterMap Act.afterJobFails = []
  | .ready _ => log.filterMap Act.afterJobCall = [] ∧ log.filterMap Act.afterJobFails = []
  | .running _ => log.filterMap Act.afterJobCall = [] ∧ log.filterMap Act.afterJobFails = []

theorem afterCalls (h : Protocol job phase log) : AfterCalls job log phase := by
  induction h with
  | started => exact ⟨rfl, rfl⟩
  | beforeJob ctx _ ih =>
    rw [AfterCalls, filterMap_concat_none rfl, filterMap_concat_none rfl]
    exact ih
  | beforeJobOk _ ih =>
    rw [AfterCalls, filterMap_concat_none rfl, filterMap_concat_none rfl]
    exact ih
  | beforeJobError e _ ih =>
    rw [AfterCalls, filterMap_concat_none rfl, filterMap_concat_none rfl, ih.1]
    exact ⟨rfl, ih.2⟩
  | opened _ ih => exact ih
  | step path s ctx _ ih =>
    rw [AfterCalls, filterMap_concat_none rfl, filterMap_concat_none rfl]
    exact ih
  | stepOk _ _ ih =>
    rw [AfterCalls, filterMap_concat_none rfl, filterMap_concat_none rfl]
    exact ih
  | stepFail e _ ih =>
    rw [AfterCalls, filterMap_concat_none rfl, filterMap_concat_none rfl, ih.1]
    exact ⟨rfl, ih.2⟩
  | build _ ih => exact ⟨by rw [ih.1]; rfl, ih.2⟩
  | @afterJob output path s todo log ctx _ ih =>
    refine ⟨log.filterMap Act.afterJobCall, s, List.filterMap_append, ih.1, ?_⟩
    rw [filterMap_concat_none rfl]
    exact ih.2
  | @afterJobOk output path todo log _ ih =>
    obtain ⟨done, s, hcalls, hall, hok⟩ := ih
    rw [AfterCalls, filterMap_concat_none rfl, filterMap_concat_none rfl, hcalls, List.append_assoc]
    exact ⟨hall, hok⟩
  | @afterJobError output path todo log e _ ih =>
    obtain ⟨done, s, hcalls, hall, hok⟩ := ih
    refine .inr ⟨done, path, s, todo, ?_, hall, ?_⟩
    · rw [filterMap_concat_none rfl, filterMap_concat_none rfl, hcalls]
    · rw [filterMap_concat_none rfl, List.filterMap_append, hok]
      rfl
  | @closed output log _ ih =>
    have hcall : (Act.announce output : Act σ Ck ε Err Pl).afterJobCall = none := by cases output <;> rfl
    have hfail : (Act.announce output : Act σ Ck ε Err Pl).afterJobFails = none := by cases output <;> rfl
    refine .inl ?_
    rw [filterMap_concat_none hcall, filterMap_concat_none hfail]
    exact ⟨by simpa using ih.1, ih.2⟩

end Calls

section Results

def Handed (job : Job σ Ck ε Err Pl) (log : List (Act σ Ck ε Err Pl)) : JobPhase σ Ck Err Pl → Prop
  | .opening _ => handed job.start log = job.start
  | .calledBefore _ _ => handed job.start log = job.start
  | .ready c => handed job.start log = c
  | .running _ => True
  | .closing output _ => ∀ payload, output = .ok payload →
      job.buildPayload (handed job.start log) = .ok payload
  | .calledAfter output _ _ => ∀ payload, output = .ok payload →
      job.buildPayload (handed job.start log) = .ok payload
  | .resolved output => ∀ payload, output = .ok payload →
      job.buildPayload (handed job.start log) = .ok payload

theorem threaded (h : Protocol job phase log) : Threaded job.start log ∧ Handed job log phase := by
  induction h with
  | started => exact ⟨trivial, rfl⟩
  | beforeJob ctx _ ih =>
    exact ⟨(threaded_append _ _ _).mpr ⟨ih.1, trivial⟩, (handed_append _ _ _).trans ih.2⟩
  | beforeJobOk _ ih =>
    exact ⟨(threaded_append _ _ _).mpr ⟨ih.1, trivial⟩, (handed_append _ _ _).trans ih.2⟩
  | beforeJobError e _ ih =>
    exact ⟨(threaded_append _ _ _).mpr ⟨ih.1, trivial⟩, fun payload hp => by cases hp⟩
  | opened _ ih => exact ih
  | step path s ctx _ ih =>
    exact ⟨(threaded_append _ _ _).mpr ⟨ih.1, ih.2.symm, trivial⟩, trivial⟩
  | @stepOk path log output c _ hc ih =>
    refine ⟨(threaded_append _ _ _).mpr ⟨ih.1, trivial⟩, (handed_append _ _ _).trans ?_⟩
    rw [handed, hc]
    rfl
  | stepFail e _ ih =>
    exact ⟨(threaded_append _ _ _).mpr ⟨ih.1, trivial⟩, fun payload hp => by cases hp⟩
  | @build c log _ ih =>
    refine ⟨ih.1, fun payload hp => ?_⟩
    rw [show handed job.start log = c from ih.2]
    exact hp
  | afterJob ctx _ ih =>
    refine ⟨(threaded_append _ _ _).mpr ⟨ih.1, trivial⟩, fun payload hp => ?_⟩
    rw [handed_append]
    exact ih.2 payload hp
  | afterJobOk _ ih =>
    refine ⟨(threaded_append _ _ _).mpr ⟨ih.1, trivial⟩, fun payload hp => ?_⟩
    rw [handed_append]
    exact ih.2 payload hp
  | afterJobError e _ ih =>
    refine ⟨?_, fun payload hp => by cases hp⟩
    exact (threaded_append _ _ _).mpr ⟨(threaded_append _ _ _).mpr ⟨ih.1, trivial⟩, trivial⟩
  | @closed output log _ ih =>
    refine ⟨(threaded_append _ _ _).mpr ⟨ih.1, ?_⟩, fun payload hp => ?_⟩
    · cases output <;> trivial
    · rw [handed_append]
      cases output <;> exact ih.2 payload hp

def Clean (log : List (Act σ Ck ε Err Pl)) : JobPhase σ Ck Err Pl → Prop
  | .closing output _ => ∀ payload, output = .ok payload → ∀ a ∈ log, a.fails = false
  | .calledAfter output _ _ => ∀ payload, output = .ok payload → ∀ a ∈ log, a.fails = false
  | .resolved output => ∀ payload, output = .ok payload → ∀ a ∈ log, a.fails = false
  | .opening _ => ∀ a ∈ log, a.fails = false
  | .calledBefore _ _ => ∀ a ∈ log, a.fails = false
  | .ready _ => ∀ a ∈ log, a.fails = false
  | .running _ => ∀ a ∈ log, a.fails = false

theorem clean (h : Protocol job phase log) : Clean log phase := by
  induction h with
  | started => simp [Clean, Act.fails, Act.beforeJobFails, Act.stepFails, Act.afterJobFails]
  | beforeJob ctx _ ih => exact forall_concat ih rfl
  | beforeJobOk _ ih => exact forall_concat ih rfl
  | beforeJobError e _ _ => exact fun payload hp => by cases hp
  | opened _ ih => exact ih
  | step path s ctx _ ih => exact forall_concat ih rfl
  | @stepOk path log output c _ hc ih =>
    cases output with
    | fail e => cases hc
    | brk c' => exact forall_concat ih rfl
    | ok c' => exact forall_concat ih rfl
  | stepFail e _ _ => exact fun payload hp => by cases hp
  | build _ ih => exact fun _ _ => ih
  | afterJob ctx _ ih => exact fun payload hp => forall_concat (ih payload hp) rfl
  | afterJobOk _ ih => exact fun payload hp => forall_concat (ih payload hp) rfl
  | afterJobError e _ _ => exact fun payload hp => by cases hp
  | closed _ ih =>
    rintro payload rfl
    exact forall_concat (ih payload rfl) rfl

def announced : JobPhase σ Ck Err Pl → Option (Except Err Pl)
  | .resolved output => some output
  | _ => none

theorem verdicts (h : Protocol job phase log) : log.filterMap Act.verdict = (announced phase).toList := by
  induction h with
  | started => rfl
  | opened _ ih => exact ih
  | build _ ih => exact ih
  | afterJobError e _ ih =>
    rw [List.filterMap_append, List.filterMap_append, ih]
    rfl
  | closed _ ih =>
    rw [List.filterMap_append, ih]
    simp [announced]
  | _ =>
    rename_i ih
    rw [List.filterMap_append, ih]
    rfl

end Results

end Protocol

end Rblib.Pipelines
