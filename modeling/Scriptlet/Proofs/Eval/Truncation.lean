import Scriptlet.Proofs.Eval.Outcome
import Scriptlet.Proofs.Eval.Simulation

/-! # What a failing sink decides

A run on a sink that never fails is compared with the run of the same program on a sink that fails
once a number of flushes have succeeded. Up to the first line that the sink does not pass on, the two
runs are the same; there the other run fails, and nothing catches the failure. What has been printed
by then is what the first run prints, cut off right at that line (`eval_truncated`).
-/

namespace Scriptlet

/-- How many of `n + 1` lines are taken if the last of them meets the fault: a line that is not
flushed has been written. -/
def SinkFault.taken (n : Nat) : SinkFault → Nat
  | .unwritten _ => n
  | .unflushed _ => n + 1

/-- The sink never fails, and has passed on all its lines. -/
def Sink.Flowing (s : Sink) : Prop :=
  s.behaviour = .none ∧ s.flushed = s.lines.size

/-- The sink with another behaviour. -/
def Sink.limited (behaviour : SinkBehaviour) (s : Sink) : Sink :=
  { s with behaviour }

/-- The sink with one more line that has been passed on. -/
def Sink.pass (s : Sink) (line : PrintedLine) : Sink :=
  { s.write line with flushed := s.flushed + 1, given := line.text :: s.given }

/-- The machine with another behaviour of its sink. -/
def Machine.limited (behaviour : SinkBehaviour) (m : Machine) : Machine :=
  { m with sink := m.sink.limited behaviour }

/-- The lines that have been printed. -/
def Machine.printed (m : Machine) : List PrintedLine :=
  m.sink.lines.toList

/-! ## One line -/

section Printing

variable {s : Sink} {n : Nat} (fault : SinkFault) (line : PrintedLine)

theorem SinkFault.taken_le_succ (n : Nat) : fault.taken n ≤ n + 1 := by
  cases fault with
  | unwritten _ => exact Nat.le_succ n
  | unflushed _ => exact Nat.le_refl _

theorem Sink.Flowing.pass (h : s.Flowing) : (s.pass line).Flowing := by
  refine ⟨h.1, ?_⟩
  show s.flushed + 1 = (s.lines.push line).size
  rw [h.2, Array.size_push]

/-- A line without a fault is passed on. -/
theorem Sink.print_of_none {line : PrintedLine}
    (h : s.behaviour.fault? s.flushed s.given line.text = none) :
    s.print line = (none, s.pass line) := by
  simp only [Sink.print, h]
  rfl

/-- A line that meets a fault is kept if it was written. -/
theorem Sink.print_of_fault {line : PrintedLine} {fault : SinkFault}
    (h : s.behaviour.fault? s.flushed s.given line.text = some fault) :
    ∃ s', s.print line = (some fault, s') ∧
      s'.lines.toList = (s.pass line).lines.toList.take (fault.taken s.lines.size) := by
  have hlines : (s.pass line).lines.toList = s.lines.toList ++ [line] := Array.toList_push
  rw [hlines]
  cases fault with
  | unwritten details =>
    refine ⟨_, by simp only [Sink.print, h]; rfl, ?_⟩
    exact List.take_left.symm
  | unflushed details =>
    refine ⟨_, by simp only [Sink.print, h]; rfl, ?_⟩
    refine Array.toList_push.trans (List.take_of_length_le ?_).symm
    simp [SinkFault.taken]

theorem Sink.Flowing.print (h : s.Flowing) : s.print line = (none, s.pass line) :=
  Sink.print_of_none (by rw [h.1]; rfl)

/-- Below the limit a line is passed on. -/
theorem Sink.Flowing.print_below (h : s.Flowing) (hn : s.lines.size < n) :
    (s.limited (.after n fault)).print line = (none, (s.pass line).limited (.after n fault)) := by
  refine Sink.print_of_none (if_neg ?_)
  rw [show (s.limited (.after n fault)).flushed = s.lines.size from h.2]
  exact Nat.not_le_of_lt hn

/-- At the limit a line meets the fault. -/
theorem Sink.Flowing.print_at (h : s.Flowing) :
    ∃ s', (s.limited (.after s.lines.size fault)).print line = (some fault, s') ∧
      s'.lines.toList = (s.pass line).lines.toList.take (fault.taken s.lines.size) :=
  Sink.print_of_fault (if_pos (Nat.le_of_eq h.2.symm))

end Printing

/-! ## Two runs -/

/-- How an evaluation on a sink that has the fault after `n` flushes compares to one that led from
`m` to `m'` on a sink that never fails: it ends in the same way if at most `n` lines have been
printed in the end, and fails at the next line if there is one. -/
structure Truncated {α : Type} (n : Nat) (fault : SinkFault) (m m' : Machine)
    (o o' : Outcome RuntimeError α) : Prop where
  flowing : m'.sink.Flowing
  printed_prefix : m.printed <+: m'.printed
  same : m'.printed.length ≤ n → o' = o.mapMachine (·.limited (.after n fault))
  cut : m.printed.length ≤ n → ∀ line, m'.printed[n]? = some line →
    ∃ m'', o' = .failed ⟨.outputFailed fault, line.pos⟩ m'' ∧
      m''.printed = m'.printed.take (fault.taken n)

/-- The second evaluation, on a sink that has the fault after `n` flushes, is the first cut off
there, wherever the first ends. -/
def Truncates (n : Nat) (fault : SinkFault) {α : Type} (x y : Eval α) : Prop :=
  ∀ m m', m.sink.Flowing → (x m).EndsIn m' →
    Truncated n fault m m' (x m) (y (m.limited (.after n fault)))

/-- The evaluation neither reads the sink nor changes it. -/
def Silent {α : Type} (x : Eval α) : Prop :=
  ∀ m sink, x { m with sink } = (x m).mapMachine ({ · with sink })

variable {n : Nat} {fault : SinkFault}

theorem Silent.sink_eq {α : Type} {x : Eval α} (hx : Silent x) {m m' : Machine}
    (hends : (x m).EndsIn m') : m'.sink = m.sink := by
  have hself := hx m m.sink
  cases hxm : x m with
  | done a m₁ | failed e m₁ =>
    rw [hxm] at hself hends
    cases hends
    injection hself with _ hm
    rw [hm]
  | unfinished =>
    rw [hxm] at hends
    exact hends.elim

theorem StoreOnly.silent {α : Type} {x : Eval α} (hx : StoreOnly x) : Silent x := by
  intro m sink
  calc x { m with sink }
      = (x m).mapMachine (fun m' => { m with sink, store := m'.store }) := hx m _ rfl
    _ = ((x m).mapMachine ({ m with store := ·.store })).mapMachine ({ · with sink }) := by
        rw [Outcome.mapMachine_mapMachine]
        rfl
    _ = (x m).mapMachine ({ · with sink }) := by rw [← hx m m rfl]

theorem silent_claimDepth (limit : Nat) (pos : Position) : Silent (Eval.claimDepth limit pos) := by
  intro m sink
  by_cases hfree : m.depth < limit <;> simp only [Eval.claimDepth, hfree] <;> rfl

theorem Silent.truncates {α : Type} {x : Eval α} (hx : Silent x) : Truncates n fault x x := by
  intro m m' hm hends
  have hsink := hx.sink_eq hends
  have hprinted : m'.printed = m.printed := congrArg (·.lines.toList) hsink
  refine ⟨hsink ▸ hm, hprinted ▸ List.prefix_rfl, fun _ => ?_, fun hle line hline => ?_⟩
  · refine (hx m _).trans ?_
    cases hxm : x m with
    | done a m₁ | failed e m₁ =>
      rw [hxm] at hends
      cases hends
      simp only [Outcome.mapMachine, Outcome.mapParts, Machine.limited, hsink]
    | unfinished => rfl
  · rw [hprinted, List.getElem?_eq_none hle] at hline
    cases hline

theorem truncates_bind {α β : Type} {x y : Eval α} {f g : α → Eval β} (hx : Truncates n fault x y)
    (hf : ∀ a, Truncates n fault (f a) (g a)) : Truncates n fault (x >>= f) (y >>= g) := by
  intro m m' hm hends
  rw [Eval.bind_apply] at hends ⊢
  rw [Eval.bind_apply]
  cases hxm : x m with
  | done a m₁ =>
    simp only [hxm] at hends ⊢
    have hends₁ : (x m).EndsIn m₁ := by
      rw [hxm]
      rfl
    obtain ⟨hflowing₁, hprefix₁, hsame₁, hcut₁⟩ := hx m m₁ hm hends₁
    obtain ⟨hflowing₂, hprefix₂, hsame₂, hcut₂⟩ := hf a m₁ m' hflowing₁ hends
    rw [hxm] at hsame₁
    refine ⟨hflowing₂, hprefix₁.trans hprefix₂, fun hle => ?_, fun hle line hline => ?_⟩
    · rw [hsame₁ (Nat.le_trans hprefix₂.length_le hle)]
      exact hsame₂ hle
    · -- the line that meets the fault is printed in the first part or in the second
      by_cases hearly : n < m₁.printed.length
      · obtain ⟨rest, hrest⟩ := hprefix₂
        rw [← hrest, List.getElem?_append_left hearly] at hline
        obtain ⟨m₂, hy, hprinted⟩ := hcut₁ hle line hline
        have htaken : fault.taken n ≤ m₁.printed.length :=
          Nat.le_trans (fault.taken_le_succ n) hearly
        refine ⟨m₂, by rw [hy], ?_⟩
        rw [hprinted, ← hrest, List.take_append_of_le_length htaken]
      · have hle₁ := Nat.le_of_not_lt hearly
        rw [hsame₁ hle₁]
        exact hcut₂ hle₁ line hline
  | failed e m₁ =>
    simp only [hxm] at hends ⊢
    cases hends
    have hends₁ : (x m).EndsIn m' := by
      rw [hxm]
      rfl
    obtain ⟨hflowing₁, hprefix₁, hsame₁, hcut₁⟩ := hx m m' hm hends₁
    rw [hxm] at hsame₁
    refine ⟨hflowing₁, hprefix₁, fun hle => by rw [hsame₁ hle]; rfl, fun hle line hline => ?_⟩
    obtain ⟨m₂, hy, hprinted⟩ := hcut₁ hle line hline
    exact ⟨m₂, by rw [hy], hprinted⟩
  | unfinished =>
    rw [hxm] at hends
    cases hends

theorem truncates_deeper {α : Type} {x y : Eval α} (hx : Truncates n fault x y) :
    Truncates n fault (Eval.deeper x) (Eval.deeper y) := by
  intro m m' hm hends
  rw [Eval.deeper_apply] at hends ⊢
  rw [Eval.deeper_apply]
  obtain ⟨m₁, hends₁, rfl⟩ := (Outcome.endsIn_mapMachine _ _).mp hends
  obtain ⟨hflowing, hprefix, hsame, hcut⟩ := hx { m with depth := m.depth + 1 } m₁ hm hends₁
  refine ⟨hflowing, hprefix, fun hle => ?_, fun hle line hline => ?_⟩
  · refine (congrArg _ (hsame hle)).trans ?_
    rw [Outcome.mapMachine_mapMachine, Outcome.mapMachine_mapMachine]
    rfl
  · obtain ⟨m₂, hy, hprinted⟩ := hcut hle line hline
    exact ⟨{ m₂ with depth := m₂.depth - 1 }, congrArg (Outcome.mapMachine _) hy, hprinted⟩

/-- A line is passed on in both runs, or it is the one that meets the fault. -/
theorem truncates_print (text : String) (pos : Position) :
    Truncates n fault (Eval.print text pos) (Eval.print text pos) := by
  intro m m' hm hends
  let line : PrintedLine := ⟨text, pos⟩
  have hpassed : Eval.print text pos m = .done () { m with sink := m.sink.pass line } := by
    rw [Eval.print, hm.print]
  rw [hpassed] at hends ⊢
  cases hends
  have hprinted : (m.sink.pass line).lines.toList = m.printed ++ [line] := Array.toList_push
  refine ⟨hm.pass line, ⟨[line], hprinted.symm⟩, fun hle => ?_, fun hle line' hline => ?_⟩
  · have hlt : m.sink.lines.size < n := by
      rw [Machine.printed, hprinted, List.length_append] at hle
      exact hle
    simp only [Eval.print, Machine.limited, hm.print_below fault _ hlt]
    rfl
  · -- there is one line more than before, so it is the one at the limit
    rw [Machine.printed, hprinted] at hline
    obtain ⟨hlt, -⟩ := List.getElem?_eq_some_iff.mp hline
    rw [List.length_append] at hlt
    obtain rfl : m.printed.length = n := Nat.le_antisymm hle (Nat.le_of_lt_succ hlt)
    rw [List.getElem?_concat_length] at hline
    cases hline
    obtain ⟨s', hprint, hlines⟩ := hm.print_at fault line
    refine ⟨{ m with sink := s' }, ?_, hlines⟩
    simp only [Eval.print, Machine.limited]
    rw [show m.printed.length = m.sink.lines.size from rfl, hprint]

theorem simulation_truncates (n : Nat) (fault : SinkFault) (limit : Nat) :
    Simulation (Truncates n fault) limit limit :=
  .ofStoreOnly (fun _ _ _ _ hends => hends.elim) (fun hx => hx.silent.truncates) truncates_bind
    truncates_deeper truncates_print fun pos => (silent_claimDepth limit pos).truncates

/-- What a failing sink decides. A run from a machine with what the host provides, on a sink that
never fails, leaves the lines that it prints. On a sink that has a fault once `n` flushes have
succeeded, the program ends in the same way if these are at most `n` lines. Otherwise it fails for
the fault at the call that prints the next line, and prints the first `n` lines if the sink is
closed, and that line too if it is only not flushed. More fuel changes neither. -/
theorem eval_truncated {limit fuel : Nat} {p : Program} {m' : Machine}
    (hends : (p.eval limit fuel Machine.firstScope (.global .none)).EndsIn m') (n : Nat)
    (fault : SinkFault) {fuel' : Nat} (hfuel : fuel ≤ fuel') :
    (m'.printed.length ≤ n →
        p.eval limit fuel' Machine.firstScope (.global (.after n fault)) =
          (p.eval limit fuel Machine.firstScope (.global .none)).mapMachine
            (·.limited (.after n fault))) ∧
      ∀ line, m'.printed[n]? = some line → ∃ m'',
        p.eval limit fuel' Machine.firstScope (.global (.after n fault)) =
            .failed ⟨.outputFailed fault, line.pos⟩ m'' ∧
          m''.printed = m'.printed.take (fault.taken n) := by
  have hflowing : (Machine.global .none).sink.Flowing := ⟨rfl, rfl⟩
  have hlimited : (Machine.global .none).limited (.after n fault) = .global (.after n fault) := rfl
  have htruncated := (simulation_truncates n fault limit).program hfuel Machine.firstScope p
    (.global .none) m' hflowing hends
  rw [hlimited] at htruncated
  -- nothing has been printed at the start
  exact ⟨htruncated.same, htruncated.cut (Nat.zero_le n)⟩

/-- Prints a line for every argument of a call while they are evaluated, and then one for the call. -/
def nestedPrinting : Program :=
  [.function "echo" ["x"]
      [.expr (.call (.identifier "println" ⟨1, 14⟩) [.identifier "x" ⟨1, 22⟩] ⟨1, 14⟩),
        .expr (.identifier "x" ⟨1, 26⟩)] ⟨1, 1⟩,
    .expr (.call (.identifier "println" ⟨2, 1⟩)
      [.call (.identifier "echo" ⟨2, 9⟩) [.bool true ⟨2, 14⟩] ⟨2, 9⟩,
        .call (.identifier "echo" ⟨2, 21⟩) [.bool false ⟨2, 26⟩] ⟨2, 21⟩] ⟨2, 1⟩)]

/-- How the program ends on a new sink. -/
def nestedPrintingOn (output : SinkBehaviour) : Outcome RuntimeError Value :=
  nestedPrinting.eval 9 30 Machine.firstScope (.global output)

/-- The outer call prints the third line, after those of its arguments. -/
theorem nestedPrinting_truncated :
    (nestedPrintingOn .none).EndsIn ((nestedPrintingOn .none).machineOr (.global .none)) ∧
      nestedPrintingOn (.after 3 (.unwritten "closed")) =
        (nestedPrintingOn .none).mapMachine (·.limited (.after 3 (.unwritten "closed"))) ∧
      (∃ m, nestedPrintingOn (.after 2 (.unwritten "closed")) = .failed ⟨.outputFailed (.unwritten "closed"), ⟨2, 1⟩⟩ m ∧
        m.printed = [⟨"true", ⟨1, 14⟩⟩, ⟨"false", ⟨1, 14⟩⟩]) ∧
      ∃ m, nestedPrintingOn (.after 1 (.unflushed "full")) =
          .failed ⟨.outputFailed (.unflushed "full"), ⟨1, 14⟩⟩ m ∧
        m.printed = [⟨"true", ⟨1, 14⟩⟩, ⟨"false", ⟨1, 14⟩⟩] := by
  have hprinted : ((nestedPrintingOn .none).machineOr (.global .none)).printed =
      [⟨"true", ⟨1, 14⟩⟩, ⟨"false", ⟨1, 14⟩⟩, ⟨"true false", ⟨2, 1⟩⟩] := by
    decide +kernel
  have hends :
      (nestedPrintingOn .none).EndsIn ((nestedPrintingOn .none).machineOr (.global .none)) := by
    cases hrun : nestedPrintingOn .none with
    | done v m | failed e m => rfl
    | unfinished =>
      -- an unfinished run would leave nothing printed
      rw [hrun] at hprinted
      cases hprinted
  have htruncated (n : Nat) (fault : SinkFault) := eval_truncated hends n fault (Nat.le_refl 30)
  refine ⟨hends, (htruncated 3 (.unwritten "closed")).1 (by rw [hprinted]; decide), ?_, ?_⟩
  · obtain ⟨m, hrun, hm⟩ := (htruncated 2 (.unwritten "closed")).2 ⟨"true false", ⟨2, 1⟩⟩ (by rw [hprinted]; rfl)
    exact ⟨m, hrun, by rw [hm, hprinted]; rfl⟩
  · obtain ⟨m, hrun, hm⟩ := (htruncated 1 (.unflushed "full")).2 ⟨"false", ⟨1, 14⟩⟩
      (by rw [hprinted]; rfl)
    exact ⟨m, hrun, by rw [hm, hprinted]; rfl⟩

end Scriptlet
