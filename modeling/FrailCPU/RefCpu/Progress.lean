import FrailCPU.RefCpu.Refine

/-!
# How long an instruction takes

A cycle is lost only where the core waits for a bus. Every other cycle brings the core closer to
the effect of the next instruction, by a distance that is at most ten: so the instructions of a
run are at least a tenth of its cycles, those in which a bus made the core wait apart, for as
long as the core has not stopped.
-/

namespace FrailCPU.RefCpu

open Instr ClockedMachine

/-- The core waits for a bus. -/
def Context.stalled (ctx : Context) (i : CoreInput) : Bool :=
  match ctx.state with
  | .fetch => ctx.ireq.valid && !i.iresp.addrOk
  | .fetchAddrSent => !i.iresp.dataOk
  | .load | .store => !i.dresp.addrOk
  | .loadAddrSent | .storeAddrSent => !i.dresp.dataOk
  | _ => false

/-- The cycles that the core neither waits nor has stopped. -/
def Machine.busy (s : Machine) (i : CoreInput) : List Unit :=
  if s.ctx.stalled i ∨ s.ctx.state = .unknown then [] else [()]

def Event.isInstr (e : Event) : Bool :=
  match e with
  | .instr _ => true
  | _ => false

/-- The instructions of a cycle. -/
def Machine.instrs (s : Machine) (i : CoreInput) : List Event := (s.events i).filter Event.isInstr

/-- The number of cycles up to the effect of the next instruction, at most. -/
def CpuState.distance (st : CpuState) : ℕ :=
  match st with
  | .unknown => 0
  | .branchEval | .arithmetic | .rtype | .loaded | .store | .cop0Access | .exceptionReturn => 1
  | .loadAddrSent | .cop0Decode => 2
  | .load => 3
  | .addrCheck => 4
  | .decode => 5
  | .fetchAddrSent => 6
  | .fetch => 7
  | .branch | .exception => 8
  | .commit => 9
  | .storeAddrSent => 10

theorem CpuState.distance_le (st : CpuState) : st.distance ≤ 10 := by
  cases st <;> decide

/-- Where a state of the control goes when the core does not wait, without an instruction. -/
def CpuState.moves (st : CpuState) : List CpuState :=
  match st with
  | .commit => [.fetch, .exception]
  | .fetch => [.fetchAddrSent, .decode]
  | .fetchAddrSent => [.decode]
  | .decode => [.rtype, .branchEval, .arithmetic, .addrCheck, .cop0Decode]
  | .addrCheck => [.store, .load, .unknown]
  | .cop0Decode => [.exceptionReturn, .cop0Access]
  | .load => [.loadAddrSent, .loaded]
  | .loadAddrSent => [.loaded]
  | .storeAddrSent => [.commit]
  | .branch | .exception => [.unknown, .fetch]
  | _ => []

/-- Every move is closer to the effect of the next instruction. -/
theorem CpuState.distance_moves {st st' : CpuState} (h : st' ∈ st.moves) :
    st'.distance < st.distance := by
  cases st <;> revert st' <;> decide

/-- What a cycle does to the control. -/
inductive Machine.Moves (s : Machine) (i : CoreInput) : Prop
  | waits (stalled : s.ctx.stalled i = true) (same : (s.step i).ctx.state = s.ctx.state)
  | stopped (state : s.ctx.state = .unknown) (same : (s.step i).ctx.state = .unknown)
  | executes (awake : s.ctx.stalled i = false) (known : s.ctx.state ≠ .unknown)
      (instr : s.instrs i ≠ [])
  | moves (awake : s.ctx.stalled i = false) (known : s.ctx.state ≠ .unknown)
      (move : (s.step i).ctx.state ∈ s.ctx.state.moves)

section Progress

variable {s : Machine} {i : CoreInput}

theorem Machine.instrs_eq (s : Machine) (i : CoreInput) :
    s.instrs i = (s.acts i).filter Event.isInstr := by
  rw [instrs, events, List.filter_append]
  exact List.append_nil _

theorem Machine.busy_length (s : Machine) (i : CoreInput) : (s.busy i).length ≤ 1 := by
  unfold busy
  split <;> decide

/-- Where a check sends the instruction. -/
theorem addrCheck_sends (ctx : Context) :
    ctx.addrCheck.state = .exception ∨ ctx.addrCheck.state = .store ∨
      ctx.addrCheck.state = .load ∨ ctx.addrCheck.state = .unknown := by
  unfold Context.addrCheck
  dsimp only
  split
  all_goals try split
  all_goals first
    | exact Or.inl rfl
    | exact Or.inr (Or.inl rfl)
    | exact Or.inr (Or.inr (Or.inl rfl))
    | exact Or.inr (Or.inr (Or.inr rfl))

theorem cop0Decode_sends (ctx : Context) :
    ctx.cop0Decode.state = .exception ∨ ctx.cop0Decode.state = .exceptionReturn ∨
      ctx.cop0Decode.state = .cop0Access := by
  unfold Context.cop0Decode
  split
  · split
    · exact Or.inr (Or.inl rfl)
    · exact Or.inl rfl
  · exact Or.inr (Or.inr rfl)

/-- A state that checks raises an exception, which is an instruction, or moves on. -/
theorem Machine.moves_of_check (hs : s.ctx.state = .decode ∨ s.ctx.state = .addrCheck ∨
      s.ctx.state = .cop0Decode)
    (h : (s.ctx.out i).state = .exception ∨ (s.ctx.out i).state ∈ s.ctx.state.moves) :
    s.Moves i := by
  have ha : s.ctx.stalled i = false := by
    unfold Context.stalled
    rcases hs with hs | hs | hs <;> rw [hs]
  have hk : s.ctx.state ≠ .unknown := by rcases hs with hs | hs | hs <;> simp [hs]
  rcases h with h | h
  · refine .executes ha hk ?_
    rw [instrs_eq]
    unfold acts
    rcases hs with hs | hs | hs <;> rw [hs] <;> simp only [h, if_true] <;>
      exact List.cons_ne_nil _ _
  · exact .moves ha hk h

theorem Machine.moves_of_executes (hx : s.ctx.state.executes = true) : s.Moves i := by
  refine .executes ?_ ?_ ?_
  · unfold Context.stalled
    cases hs : s.ctx.state <;> rw [hs] at hx <;> first | rfl | cases hx
  · intro hs
    rw [hs] at hx
    cases hx
  · rw [instrs_eq]
    unfold acts
    cases hs : s.ctx.state <;> rw [hs] at hx <;> first | exact List.cons_ne_nil _ _ | cases hx

/-- A state that neither waits nor checks. -/
theorem Machine.moves_of_move (hs : s.ctx.state = .commit ∨ s.ctx.state = .branch ∨
      s.ctx.state = .exception) (h : (s.ctx.out i).state ∈ s.ctx.state.moves) : s.Moves i := by
  refine .moves ?_ ?_ h
  · unfold Context.stalled
    rcases hs with hs | hs | hs <;> rw [hs]
  · rcases hs with hs | hs | hs <;> simp [hs]

/-- A state that waits for `data_ok`. -/
theorem Machine.moves_of_waits (dataOk : Bool) (st : CpuState)
    (hw : s.ctx.stalled i = !dataOk) (hk : s.ctx.state ≠ .unknown)
    (hn : (s.ctx.out i).state = if dataOk then st else s.ctx.state)
    (hm : st ∈ s.ctx.state.moves) : s.Moves i := by
  cases dataOk with
  | false => exact .waits hw hn
  | true =>
    refine .moves hw hk ?_
    change (s.ctx.out i).state ∈ _
    rw [hn]
    exact hm

theorem Machine.moves_fetch (hs : s.ctx.state = .fetch) : s.Moves i := by
  have hq : s.ctx.ireq.valid = (s.ctx.pc.extractLsb' 0 2 == 0#2) := by rw [Context.ireq, hs]
  have hk : s.ctx.state ≠ .unknown := by simp [hs]
  have hw : s.ctx.stalled i = ((s.ctx.pc.extractLsb' 0 2 == 0#2) && !i.iresp.addrOk) := by
    rw [Context.stalled, hs, ← hq]
  have ho : (s.ctx.out i).state = (s.ctx.fetch i.iresp).state := by rw [Context.out, hs]
  by_cases hm : s.ctx.pc.extractLsb' 0 2 = 0#2
  · rw [Context.fetch, if_neg (not_not_intro hm)] at ho
    rw [hm] at hw
    cases ha : i.iresp.addrOk with
    | false =>
      refine .waits (by rw [hw, ha]; rfl) ?_
      change (s.ctx.out i).state = _
      rw [ho, hs, memWait, ha]
      rfl
    | true =>
      have hn : (s.ctx.out i).state = if i.iresp.dataOk then .decode else .fetchAddrSent := by
        rw [ho, memWait, ha]
        cases i.iresp.dataOk <;> rfl
      refine .moves (by rw [hw, ha]; rfl) hk ?_
      change (s.ctx.out i).state ∈ _
      rw [hn, hs]
      split <;> decide
  · refine .executes (by rw [hw, beq_eq_false_iff_ne.2 hm]; rfl) hk ?_
    rw [instrs_eq]
    unfold acts
    rw [hs]
    have hx : (s.ctx.out i).state = .exception := by
      rw [ho, Context.fetch, if_pos hm]
      rfl
    simp only [hx, if_true]
    exact List.cons_ne_nil _ _

theorem Machine.moves_load (hs : s.ctx.state = .load) : s.Moves i := by
  have hw : s.ctx.stalled i = !i.dresp.addrOk := by rw [Context.stalled, hs]
  have ho : (s.ctx.out i).state = memWait i.dresp .load .loadAddrSent .loaded := by
    rw [Context.out, hs]
    rfl
  cases ha : i.dresp.addrOk with
  | false =>
    refine .waits (by rw [hw, ha]; rfl) ?_
    change (s.ctx.out i).state = _
    rw [ho, hs, memWait, ha]
    rfl
  | true =>
    refine .moves (by rw [hw, ha]; rfl) (by simp [hs]) ?_
    change (s.ctx.out i).state ∈ _
    rw [ho, memWait, ha, hs]
    cases i.dresp.dataOk <;> decide

/-- A store has its effect when it is accepted. -/
theorem Machine.moves_store (hs : s.ctx.state = .store) : s.Moves i := by
  have hw : s.ctx.stalled i = !i.dresp.addrOk := by rw [Context.stalled, hs]
  cases ha : i.dresp.addrOk with
  | false =>
    refine .waits (by rw [hw, ha]; rfl) ?_
    change (s.ctx.out i).state = _
    rw [Context.out, hs]
    change memWait i.dresp .store .storeAddrSent .commit = _
    rw [memWait, ha]
    rfl
  | true =>
    refine .executes (by rw [hw, ha]; rfl) (by simp [hs]) ?_
    rw [instrs_eq]
    unfold acts
    simp only [hs, ha, if_true]
    exact List.cons_ne_nil _ _

theorem Machine.moves (s : Machine) (i : CoreInput) : s.Moves i := by
  cases hs : s.ctx.state with
  | unknown =>
    refine .stopped hs ?_
    change (s.ctx.out i).state = _
    rw [Context.out, hs]
    exact hs
  | branchEval | arithmetic | rtype | loaded | cop0Access | exceptionReturn =>
    exact moves_of_executes (by rw [hs]; rfl)
  | fetch => exact moves_fetch hs
  | load => exact moves_load hs
  | store => exact moves_store hs
  | decode =>
    refine moves_of_check (Or.inl hs) ?_
    rw [Context.out, hs]
    change s.ctx.decode.state = _ ∨ s.ctx.decode.state ∈ _
    by_cases h : s.ctx.decode.state = .exception
    · exact Or.inl h
    · right
      rcases (decode_sends h).2 with h | h | h | h | h <;> rw [h] <;> decide
  | addrCheck =>
    refine moves_of_check (Or.inr (Or.inl hs)) ?_
    rw [Context.out, hs]
    exact (addrCheck_sends s.ctx).imp_right fun h => by
      rcases h with h | h | h <;> rw [h] <;> decide
  | cop0Decode =>
    refine moves_of_check (Or.inr (Or.inr hs)) ?_
    rw [Context.out, hs]
    exact (cop0Decode_sends s.ctx).imp_right fun h => by
      rcases h with h | h <;> rw [h] <;> decide
  | commit =>
    refine moves_of_move (Or.inl hs) ?_
    rw [Context.out, hs]
    change s.ctx.commit.state ∈ _
    rw [s.ctx.commit_state]
    split <;> decide
  | branch =>
    refine moves_of_move (Or.inr (Or.inl hs)) ?_
    rw [Context.out, hs]
    have hb : s.ctx.branch.state = if s.ctx.delayed then .unknown else .fetch := by
      unfold Context.branch
      split <;> rfl
    change s.ctx.branch.state ∈ _
    rw [hb]
    split <;> decide
  | «exception» =>
    refine moves_of_move (Or.inr (Or.inr hs)) ?_
    rw [Context.out, hs]
    change (if _ then CpuState.unknown else if _ then CpuState.unknown else .fetch) ∈ _
    split <;> [skip; split] <;> decide
  | fetchAddrSent =>
    refine moves_of_waits i.iresp.dataOk .decode ?_ (by simp [hs]) ?_ (by rw [hs]; decide)
    · rw [Context.stalled, hs]
    · rw [Context.out, hs]
      rfl
  | loadAddrSent =>
    refine moves_of_waits i.dresp.dataOk .loaded ?_ (by simp [hs]) ?_ (by rw [hs]; decide)
    · rw [Context.stalled, hs]
    · rw [Context.out, hs]
      rfl
  | storeAddrSent =>
    refine moves_of_waits i.dresp.dataOk .commit ?_ (by simp [hs]) ?_ (by rw [hs]; decide)
    · rw [Context.stalled, hs]
    · rw [Context.out, hs]
      rfl

/-- A cycle pays for itself with an instruction or with the distance. -/
theorem Machine.busy_bounded (s : Machine) (i : CoreInput) :
    (s.busy i).length + (s.step i).ctx.state.distance ≤
      10 * (s.instrs i).length + s.ctx.state.distance := by
  have h1 := s.busy_length i
  cases s.moves i with
  | waits hw hn =>
    rw [busy, if_pos (Or.inl hw), hn]
    exact (Nat.zero_add _).trans_le (Nat.le_add_left _ _)
  | stopped hs hn =>
    rw [busy, if_pos (Or.inr hs), hn, hs]
    exact (Nat.zero_add _).trans_le (Nat.le_add_left _ _)
  | executes _ hk hi =>
    have h2 := List.length_pos_iff.2 hi
    have h3 := (s.step i).ctx.state.distance_le
    have h4 : 1 ≤ s.ctx.state.distance := by
      cases hs : s.ctx.state <;> first | decide | contradiction
    omega
  | moves _ _ hm =>
    have h2 := CpuState.distance_moves hm
    omega

end Progress

/-- Whatever the buses do, the cycles of a run in which the core does not wait for them are at
most ten for an instruction, for as long as it has not stopped. -/
theorem core_progress (mem : ByteMemory.Memory) (is : List CoreInput) :
    (collect Machine.step Machine.busy (.reset mem) is).length ≤
      10 * (collect Machine.step Machine.events (.reset mem) is).countP Event.isInstr + 7 := by
  rw [List.countP_eq_length_filter, collect_filter]
  have h := collect_bounded (fun s => s.ctx.state.distance) (P := fun _ => True)
    (fun _ _ _ _ => trivial) (fun s i _ _ => Machine.busy_bounded s i)
    (show Along Machine.step (fun _ _ => True) (.reset mem) is from
      along_of_forall fun _ _ => trivial)
    trivial
  exact (Nat.le_add_right _ _).trans h

end FrailCPU.RefCpu
