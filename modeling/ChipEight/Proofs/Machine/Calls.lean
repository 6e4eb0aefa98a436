import ChipEight.Proofs.Checked.Safety

/-!
# Calls and returns

1. The stack changes by the calls and returns that an operation carries out and in no other way
   (`stack_respond`); `StackLaws` says when each of them succeeds and what it leaves.
2. As long as a run stays at least as deep as some part of the stack reaches, it keeps that part
   (`suffix_after`).
3. So the return that closes a call finds the address that the call left, whatever was run in
   between (`return_closes_call`).
-/

namespace ChipEight

namespace Machine

variable {m : Machine} {op : Operation}

/-- The return addresses of the open calls, oldest first. -/
def returns (m : Machine) : List Word := m.stack.reverse

/-- The instruction that an operation carries out, if it comes to carrying one out. -/
def executed? (m : Machine) : Operation → Option Instruction
  | .tick _ => m.next.toOption
  | .step _ => m.next.toOption
  | .perform _ i => some i
  | _ => none

/-- The address that follows the instruction which an operation carries out. -/
def following (m : Machine) : Operation → Word
  | .tick _ => m.pc + 2
  | .step _ => m.pc + 2
  | _ => m.pc

/-! ## Operations that carry out an instruction -/

theorem step_of_next {i : Instruction} (h : m.next = .ok i) (noise : Byte) :
    m.step noise = (m.goTo (m.pc + 2)).perform noise i := by
  unfold next at h
  unfold step
  cases hfetch : m.fetch with
  | error f =>
    rw [hfetch] at h
    cases h
  | ok word =>
    simp only [hfetch] at h
    simp only [h]

theorem stack_step_of_next_error {f : Fault} (h : m.next = .error f) (noise : Byte) :
    (m.step noise).value.stack = m.stack := by
  rcases step_cases noise m with ⟨f', -, hs⟩ | ⟨w, -, -, hs⟩ | ⟨w, i, hfetch, hdecode, -⟩
  · rw [hs]; rfl
  · rw [hs]; rfl
  · unfold next at h
    simp only [hfetch, hdecode] at h
    cases h

theorem stack_tick (noise : Byte) (m : Machine) :
    (m.tick noise).value.stack = (m.step noise).value.stack := by
  rcases tick_eq noise m with ⟨h, -⟩ | ⟨h, -⟩
  · rw [h]
  · rw [h]
    rfl

theorem pc_tick (noise : Byte) (m : Machine) :
    (m.tick noise).value.pc = (m.step noise).value.pc := by
  rcases tick_eq noise m with ⟨h, -⟩ | ⟨h, -⟩
  · rw [h]
  · rw [h]
    rfl

theorem next_of_toOption {i : Instruction} (h : m.next.toOption = some i) : m.next = .ok i := by
  cases hnext : m.next with
  | error f => rw [hnext] at h; cases h
  | ok i' =>
    rw [hnext] at h
    exact congrArg Except.ok (Option.some.inj h)

/-- The timers aside, the operation does what the instruction does past its word. -/
theorem respond_of_executed {i : Instruction} (h : m.executed? op = some i) :
    ∃ noise, let o := (m.goTo (m.following op)).perform noise i
      (m.respond op).fault = o.fault ∧ (m.respond op).value.stack = o.value.stack ∧
        (m.respond op).value.pc = o.value.pc := by
  cases op with
  | tick noise =>
    have hstep := step_of_next (next_of_toOption h) noise
    refine ⟨noise, ?_⟩
    show (m.tick noise).fault = _ ∧ (m.tick noise).value.stack = _ ∧ (m.tick noise).value.pc = _
    rw [fault_tick, stack_tick, pc_tick, hstep]
    exact ⟨rfl, rfl, rfl⟩
  | step noise =>
    have hstep := step_of_next (next_of_toOption h) noise
    refine ⟨noise, ?_⟩
    show (m.step noise).fault = _ ∧ (m.step noise).value.stack = _ ∧ (m.step noise).value.pc = _
    rw [hstep]
    exact ⟨rfl, rfl, rfl⟩
  | perform noise i' =>
    obtain rfl := Option.some.inj h
    exact ⟨noise, rfl, rfl, rfl⟩
  | load | loadImage | loadGlyphs | lowerTimers | read | readWord | write | setReg | pointTo | goTo
  | press | release | clear | blit | draw | drain => cases h

theorem stack_between (htick : op.isTick = false) (hhalf : op.isHalfTick = false) (m : Machine) :
    (m.respond op).value.stack = m.stack := by
  obtain ⟨_, _, _, _, h⟩ := respond_between htick hhalf m
  rw [h]

theorem stack_respond_of_none (h : m.executed? op = none) :
    (m.respond op).value.stack = m.stack := by
  have hfails : m.next.toOption = none → ∃ f, m.next = .error f := by
    cases m.next with
    | error f => exact fun _ => ⟨f, rfl⟩
    | ok i => exact fun h => nomatch h
  cases op with
  | tick noise =>
    obtain ⟨f, hf⟩ := hfails h
    exact (stack_tick noise m).trans (stack_step_of_next_error hf noise)
  | step noise =>
    obtain ⟨f, hf⟩ := hfails h
    exact stack_step_of_next_error hf noise
  | perform noise i => cases h
  | lowerTimers => rfl
  | load | loadImage | loadGlyphs | read | readWord | write | setReg | pointTo | goTo | press
  | release | clear | blit | draw | drain => exact stack_between rfl rfl m

/-! ## What an operation does to the stack -/

theorem respond_call {target : Address} (h : m.executed? op = some (.call target))
    (hroom : m.stack.length < callDepthLimit) :
    (m.respond op).fault = none ∧ (m.respond op).value.stack = m.following op :: m.stack ∧
      (m.respond op).value.pc = target.toWord := by
  obtain ⟨noise, hfault, hstack, hpc⟩ := respond_of_executed h
  have hcall : (m.goTo (m.following op)).perform noise (.call target) =
      .success { m with stack := m.following op :: m.stack, pc := target.toWord } := if_pos hroom
  rw [hfault, hstack, hpc, hcall]
  exact ⟨rfl, rfl, rfl⟩

theorem respond_call_overflow {target : Address} (h : m.executed? op = some (.call target))
    (hfull : callDepthLimit ≤ m.stack.length) :
    (m.respond op).fault = some (.stackOverflow callDepthLimit (m.following op)) ∧
      (m.respond op).value.stack = m.stack := by
  obtain ⟨noise, hfault, hstack, -⟩ := respond_of_executed h
  have hcall : (m.goTo (m.following op)).perform noise (.call target) =
      .failure (m.goTo (m.following op)) (.stackOverflow callDepthLimit (m.following op)) :=
    if_neg (Nat.not_lt.2 hfull)
  rw [hfault, hstack, hcall]
  exact ⟨rfl, rfl⟩

theorem respond_ret {caller : Word} {older : List Word} (h : m.executed? op = some .ret)
    (hopen : m.stack = caller :: older) :
    (m.respond op).fault = none ∧ (m.respond op).value.stack = older ∧
      (m.respond op).value.pc = caller := by
  obtain ⟨noise, hfault, hstack, hpc⟩ := respond_of_executed h
  have hret : (m.goTo (m.following op)).perform noise .ret =
      .success { m with stack := older, pc := caller } := by
    show (m.goTo (m.following op)).ret = _
    unfold ret
    rw [show (m.goTo (m.following op)).stack = caller :: older from hopen]
    rfl
  rw [hfault, hstack, hpc, hret]
  exact ⟨rfl, rfl, rfl⟩

theorem respond_ret_underflow (h : m.executed? op = some .ret) (hclosed : m.stack = []) :
    (m.respond op).fault = some .stackUnderflow ∧ (m.respond op).value.stack = m.stack := by
  obtain ⟨noise, hfault, hstack, -⟩ := respond_of_executed h
  have hret : (m.goTo (m.following op)).perform noise .ret =
      .failure (m.goTo (m.following op)) .stackUnderflow := by
    show (m.goTo (m.following op)).ret = _
    unfold ret
    rw [show (m.goTo (m.following op)).stack = [] from hclosed]
  rw [hfault, hstack, hret]
  exact ⟨rfl, rfl⟩

theorem stack_respond_of_other (hcall : ∀ target, m.executed? op ≠ some (.call target))
    (hret : m.executed? op ≠ some .ret) : (m.respond op).value.stack = m.stack := by
  cases h : m.executed? op with
  | none => exact stack_respond_of_none h
  | some i =>
    obtain ⟨noise, -, hstack, -⟩ := respond_of_executed h
    rw [hstack]
    refine stack_perform noise i _ (fun target e => ?_) (fun e => ?_)
    · exact hcall target (by rw [h, e])
    · exact hret (by rw [h, e])

/-- The stack is kept, grows by a call or shrinks by a return. -/
theorem stack_respond (op : Operation) (m : Machine) :
    (m.respond op).value.stack = m.stack ∨
      ((m.respond op).fault = none ∧ ∃ target, m.executed? op = some (.call target) ∧
        (m.respond op).value.stack = m.following op :: m.stack) ∨
      ((m.respond op).fault = none ∧ m.executed? op = some .ret ∧
        m.stack = (m.respond op).value.pc :: (m.respond op).value.stack) := by
  by_cases hcall : ∃ target, m.executed? op = some (.call target)
  · obtain ⟨target, hcall⟩ := hcall
    rcases Nat.lt_or_ge m.stack.length callDepthLimit with hroom | hfull
    · obtain ⟨hfault, hstack, -⟩ := respond_call hcall hroom
      exact Or.inr (Or.inl ⟨hfault, target, hcall, hstack⟩)
    · exact Or.inl (respond_call_overflow hcall hfull).2
  by_cases hret : m.executed? op = some .ret
  · cases hopen : m.stack with
    | nil => exact Or.inl ((respond_ret_underflow hret hopen).2.trans hopen)
    | cons caller older =>
      obtain ⟨hfault, hstack, hpc⟩ := respond_ret hret hopen
      exact Or.inr (Or.inr ⟨hfault, hret, by rw [hstack, hpc]⟩)
  · exact Or.inl (stack_respond_of_other (fun target e => hcall ⟨target, e⟩) hret)

/-- When a call or a return succeeds, what it leaves on the stack and where it goes, and that all
else leaves the stack as it is. -/
structure StackLaws (m : Machine) (op : Operation) : Prop where
  call : ∀ target, m.executed? op = some (.call target) → m.returns.length < callDepthLimit →
    (m.respond op).fault = none ∧ (m.respond op).value.returns = m.returns ++ [m.following op] ∧
      (m.respond op).value.pc = target.toWord
  overflow : ∀ target, m.executed? op = some (.call target) → callDepthLimit ≤ m.returns.length →
    (m.respond op).fault = some (.stackOverflow callDepthLimit (m.following op))
  ret : m.executed? op = some .ret → ∀ older caller, m.returns = older ++ [caller] →
    (m.respond op).fault = none ∧ (m.respond op).value.returns = older ∧
      (m.respond op).value.pc = caller
  underflow : m.executed? op = some .ret → m.returns = [] →
    (m.respond op).fault = some .stackUnderflow
  failure : (m.respond op).fault ≠ none → (m.respond op).value.returns = m.returns
  other : (∀ target, m.executed? op ≠ some (.call target)) → m.executed? op ≠ some .ret →
    (m.respond op).value.returns = m.returns

theorem length_returns (m : Machine) : m.returns.length = m.stack.length := List.length_reverse

theorem stackLaws (m : Machine) (op : Operation) : m.StackLaws op where
  call target h hroom := by
    rw [length_returns] at hroom
    obtain ⟨hfault, hstack, hpc⟩ := respond_call h hroom
    refine ⟨hfault, ?_, hpc⟩
    rw [returns, hstack, List.reverse_cons]
    rfl
  overflow target h hfull := by
    rw [length_returns] at hfull
    exact (respond_call_overflow h hfull).1
  ret h older caller hopen := by
    have hstack : m.stack = caller :: older.reverse := by
      rw [← List.reverse_reverse m.stack, show m.stack.reverse = _ from hopen, List.reverse_append]
      rfl
    obtain ⟨hfault, hstack', hpc⟩ := respond_ret h hstack
    refine ⟨hfault, ?_, hpc⟩
    rw [returns, hstack', List.reverse_reverse]
  underflow h hclosed := (respond_ret_underflow h (List.reverse_eq_nil_iff.1 hclosed)).1
  failure hfault := by
    rcases stack_respond op m with h | ⟨h, -⟩ | ⟨h, -⟩
    · exact congrArg List.reverse h
    · exact absurd h hfault
    · exact absurd h hfault
  other hcall hret := congrArg List.reverse (stack_respond_of_other hcall hret)

/-! ## Runs -/

theorem after_append (m : Machine) (ops ops' : List Operation) :
    m.after (ops ++ ops') = (m.after ops).after ops' := List.foldl_append

/-- A part of the stack that the operation does not reach down to is kept. -/
theorem suffix_respond {base : List Word} (h : base <:+ m.stack)
    (hdeep : base.length ≤ (m.respond op).value.stack.length) :
    base <:+ (m.respond op).value.stack := by
  rcases stack_respond op m with hkept | ⟨-, target, -, hgrown⟩ | ⟨-, -, hshrunk⟩
  · rw [hkept]; exact h
  · rw [hgrown]; exact h.trans (List.suffix_cons _ _)
  · rw [hshrunk] at h
    rcases List.suffix_cons_iff.1 h with rfl | h
    · rw [List.length_cons] at hdeep
      omega
    · exact h

theorem suffix_after {base : List Word} {ops : List Operation} (h : base <:+ m.stack)
    (hdeep : ∀ pre, pre <+: ops → base.length ≤ (m.after pre).stack.length) :
    base <:+ (m.after ops).stack := by
  induction ops generalizing m with
  | nil => exact h
  | cons op rest ih =>
    have hfirst := hdeep [op] ⟨rest, rfl⟩
    refine ih (suffix_respond h hfirst) fun pre hpre => ?_
    exact hdeep (op :: pre) (List.cons_prefix_cons.2 ⟨rfl, hpre⟩)

/-- A run that stays above a call until it is back at the depth of the call has come back by the
return that closes the call. -/
theorem return_closes_call {caller : Word} {older : List Word} {ops : List Operation}
    {last : Operation} (hopen : m.stack = caller :: older)
    (hdeep : ∀ pre, pre <+: ops → older.length < (m.after pre).stack.length)
    (hback : ((m.after ops).respond last).value.stack.length = older.length) :
    (m.after ops).executed? last = some .ret ∧
      ((m.after ops).respond last).value.pc = caller ∧
      ((m.after ops).respond last).value.stack = older := by
  have hkept : caller :: older <:+ (m.after ops).stack :=
    suffix_after (hopen ▸ List.suffix_refl _) hdeep
  have hlength := hdeep ops (List.prefix_refl _)
  rcases stack_respond last (m.after ops) with h | ⟨-, target, -, h⟩ | ⟨-, hret, h⟩
  · rw [h] at hback
    omega
  · rw [h, List.length_cons] at hback
    omega
  · -- the stack was as long as the kept part, so it was the kept part
    have hsame : caller :: older = (m.after ops).stack := by
      refine hkept.eq_of_length ?_
      rw [h, List.length_cons, List.length_cons, hback]
    rw [h] at hsame
    obtain ⟨hpc, hstack⟩ := List.cons.inj hsame
    exact ⟨hret, hpc.symm, hstack.symm⟩

theorem length_returns_after_le (keypad : Keypad) (ops : List Operation) :
    ((fresh keypad).after ops).returns.length ≤ callDepthLimit := by
  obtain ⟨hmachine, hbounded⟩ := Stored.after_follows ops (s := Stored.fresh keypad) (Nat.zero_le _)
  have hlength := Stored.length_stack_machine hbounded
  rw [hmachine] at hlength
  rw [length_returns]
  exact hlength ▸ hbounded

/-- **Stack discipline.**  In a machine that any operations have led to, the slots in use hold the
open calls, oldest first and at most as many as the limit, and every operation obeys the laws of the
stack.  When a tick calls a subroutine and the run, whatever is done in it, comes back to the depth
of the call for the first time, it does so by a return to the instruction after the call, and with
the older calls as they were. -/
theorem stack_discipline (keypad : Keypad) (before : List Operation) :
    let m := (fresh keypad).after before
    let s := (Stored.fresh keypad).after before
    s.slots.toList.take s.depth = m.returns ∧
      m.returns.length ≤ callDepthLimit ∧
      (∀ op, m.StackLaws op) ∧
      ∀ noise target ops last, m.next = .ok (.call target) → (m.tick noise).fault = none →
        let inner := (m.tick noise).value
        (∀ pre, pre <+: ops → m.returns.length < (inner.after pre).returns.length) →
        (inner.after (ops ++ [last])).returns.length = m.returns.length →
          (inner.after ops).executed? last = some .ret ∧
            (inner.after (ops ++ [last])).pc = m.pc + 2 ∧
            (inner.after (ops ++ [last])).returns = m.returns ∧
            ∀ pre, pre <+: ops → m.returns ++ [m.pc + 2] <+: (inner.after pre).returns := by
  intro m s
  have hslots : s.machine = m := (Stored.after_follows before (Nat.zero_le _)).1
  refine ⟨?_, length_returns_after_le keypad before, m.stackLaws, ?_⟩
  · rw [← hslots, returns]
    exact (List.reverse_reverse _).symm
  intro noise target ops last hnext hsuccess inner hdeep hback
  have hexecuted : m.executed? (.tick noise) = some (.call target) := by
    rw [executed?, hnext]
    rfl
  have hopen : inner.stack = (m.pc + 2) :: m.stack := by
    rcases Nat.lt_or_ge m.stack.length callDepthLimit with hroom | hfull
    · exact (respond_call hexecuted hroom).2.1
    · have hfault := (respond_call_overflow hexecuted hfull).1
      exact absurd (hfault.symm.trans hsuccess) fun e => nomatch e
  simp only [length_returns] at hdeep hback
  rw [after_append] at hback ⊢
  obtain ⟨hret, hpc, hstack⟩ := return_closes_call hopen hdeep hback
  refine ⟨hret, hpc, congrArg List.reverse hstack, fun pre hpre => ?_⟩
  have hkept : (m.pc + 2) :: m.stack <:+ (inner.after pre).stack :=
    suffix_after (hopen ▸ List.suffix_refl _) fun pre' hpre' => hdeep pre' (hpre'.trans hpre)
  have hprefix := List.reverse_prefix.2 hkept
  rwa [List.reverse_cons] at hprefix

end Machine

end ChipEight
