import FrailCPU.Fetch.FrontEnd

/-!
# The way of a redirect through the fetch

After a squash the address of the redirect is in one of seven places: in the save register
of the target or in that behind an operation of the instruction cache, behind such an
operation, at the program counter, or in the oldest record of F1, F2 or the decoder.
`Approach` names the place, together with the bits that the two save registers, their clear
conditions and the marker of a squashed fetch must have there.
-/

namespace FrailCPU

theorem ForwardPcType.rank_le (l : ForwardPcType) : l.rank ≤ ForwardPcType.pcw.rank := by
  cases l <;> decide

/-- The most senior redirect of a cycle, with the address at which the fetch has to go on. -/
def Redirects.raised (r : Redirects) : Option (ForwardPcType × Word) :=
  if r.isEret then some (.pcw, r.epc)
  else if r.isIntExc then some (.pcw, r.entrance)
  else if r.icache then some (.pcm, r.pcM + 4#32)
  else if r.branchTaken then some (.pcm, r.pcBranch)
  else none

/-- What `pcselect` makes of the redirects of a cycle. An operation of the instruction cache
goes first to the address it works on. -/
theorem Redirects.raised_cases (r : Redirects) (pcSucc : Word) (zeroPrej predTaken : Bool)
    (prePc : Word) :
    (r.raised = none ∧ (pcselect r pcSucc zeroPrej predTaken prePc).1 = .noForward ∧
        (r.isEret || r.isIntExc) = false ∧ r.icache = false ∧ r.branchTaken = false) ∨
      (∃ a, r.raised = some (.pcw, a) ∧
        pcselect r pcSucc zeroPrej predTaken prePc = (.pcw, a) ∧
        (r.isEret || r.isIntExc) = true) ∨
      (r.raised = some (.pcm, r.pcM + 4#32) ∧
        (pcselect r pcSucc zeroPrej predTaken prePc).1 = .pcm ∧
        (r.isEret || r.isIntExc) = false ∧ r.icache = true) ∨
      (r.raised = some (.pcm, r.pcBranch) ∧
        pcselect r pcSucc zeroPrej predTaken prePc = (.pcm, r.pcBranch) ∧
        (r.isEret || r.isIntExc) = false ∧ r.icache = false ∧ r.branchTaken = true) := by
  rw [raised, pcselect]
  cases r.isEret with
  | true => exact Or.inr (Or.inl ⟨r.epc, rfl, rfl, rfl⟩)
  | false =>
      cases r.isIntExc with
      | true => exact Or.inr (Or.inl ⟨r.entrance, rfl, rfl, rfl⟩)
      | false =>
          cases r.icache with
          | true => exact Or.inr (Or.inr (Or.inl ⟨rfl, rfl, rfl, rfl⟩))
          | false =>
              cases r.branchTaken with
              | true => exact Or.inr (Or.inr (Or.inr ⟨rfl, rfl, rfl, rfl, rfl⟩))
              | false =>
                  refine Or.inl ⟨rfl, ?_, rfl, rfl, rfl⟩
                  cases zeroPrej <;> cases predTaken <;> rfl

namespace FrontEnd

/-- Nothing is saved for the fetch. -/
structure Unsaved (f : FrontEnd) : Prop where
  pcSaved : f.pcSaved = false
  icacheSaved : f.icacheSaved = false
  icachePcnxtSaved : f.icachePcnxtSaved = false

/-- No record is on its way to the queue. -/
structure Drained (f : FrontEnd) (dataD : Pair FetchData) : Prop where
  f1 : f.dataF1.valid = false
  f2 : f.dataF2.slot1.valid = false
  d : dataD.slot1.valid = false

/-- Where the target `a` is before its fetch is accepted. `m2` is the operation of the
instruction cache in M2. -/
inductive Awaited (a : Word) (f : FrontEnd) (m2 : ICacheInst) : Prop
  | target (pcSaved : f.pcSaved = true) (forward : f.forwardPctypeSave ≠ .noForward)
      (icacheSaved : f.icacheSaved = false) (fihazrd : f.fihazrd = true) (pc : f.pcSave = a)
  | operation (pcSaved : f.pcSaved = true) (forward : f.forwardPctypeSave ≠ .noForward)
      (icacheSaved : f.icacheSaved = true) (fihazrd : f.fihazrd = true)
      (pcnxtSaved : f.icachePcnxtSaved = true) (pc : f.icachePcnxtSave = a)
  | operating (pcSaved : f.pcSaved = false) (icacheSaved : f.icacheSaved = false)
      (cacheI : f.dataP.cacheI = true) (fihazrd : f.fihazrd = false)
      (pcnxtSaved : f.icachePcnxtSaved = true) (pc : f.icachePcnxtSave = a)
  | asked (pcSaved : f.pcSaved = false) (icacheSaved : f.icacheSaved = false)
      (cacheI : f.dataP.cacheI = false) (fihazrd : f.fihazrd = false) (pc : f.dataP.pc = a)
      (idle : m2 = .unknown)

/-- Where the record of the fetch at `a` is once it has been accepted. -/
inductive Fetched (a : Word) (f : FrontEnd) (dataD : Pair FetchData) : Prop
  | f1 (f2 : f.dataF2.slot1.valid = false) (d : dataD.slot1.valid = false)
      (valid : f.dataF1.valid = true) (pc : f.dataF1.pc = a)
  | f2 (d : dataD.slot1.valid = false) (valid : f.dataF2.slot1.valid = true)
      (pc : f.dataF2.slot1.pc = a)
  | decoded (valid : dataD.slot1.valid = true) (pc : dataD.slot1.pc = a)

/-- The next record that reaches the queue is that of the fetch at `a`. -/
def Approach (a : Word) (f : FrontEnd) (dataD : Pair FetchData) (m2 : ICacheInst) : Prop :=
  f.Drained dataD ∧ f.Awaited a m2 ∨ f.Unsaved ∧ f.Fetched a dataD

section Step

variable {f : FrontEnd} {i : FetchInput} {a : Word} {dataD : Pair FetchData} {m2 m2' : ICacheInst}

/-- Only the record of the fetch at `a` can be in the decoder. -/
theorem Approach.decoder (h : f.Approach a dataD m2) :
    dataD.slot1.valid = false ∨ dataD.slot1.valid = true ∧ dataD.slot1.pc = a := by
  rcases h with ⟨hd, -⟩ | ⟨-, hf⟩
  · exact Or.inl hd.d
  · cases hf with
    | f1 f2 d valid pc => exact Or.inl d
    | f2 d valid pc => exact Or.inl d
    | decoded valid pc => exact Or.inr ⟨valid, pc⟩

/-- A cycle without a redirect. -/
structure Unredirected (f : FrontEnd) (i : FetchInput) : Prop where
  icache : i.redirects.icache = false
  forward : (f.selected i).1 = .noForward

theorem unredirected_of_raised (h : i.redirects.raised = none) : f.Unredirected i := by
  rcases i.redirects.raised_cases (f.dataP.pc + 8#32) (f.env i).zeroPrej
      (i.prediction.taken && !(f.env i).zeroPrej) i.prediction.prePc with
    ⟨-, hf, -, hi, -⟩ | ⟨b, hr, -⟩ | ⟨hr, -⟩ | ⟨hr, -⟩
  · exact ⟨hi, hf⟩
  all_goals
    rw [hr] at h
    cases h

theorem Unredirected.saves (h : f.Unredirected i) : f.saves i = false := by
  rw [FrontEnd.saves, h.forward]
  exact Bool.and_false _

theorem Unredirected.unsaved (h : f.Unredirected i) (hs : f.Unsaved) : (f.step i).Unsaved := by
  constructor <;>
    simp [FrontEnd.step, h.saves, h.icache, hs.pcSaved, hs.icacheSaved, hs.icachePcnxtSaved]

/-- While the fetch is stalled, the program counter and the save registers stay. -/
structure Kept (f g : FrontEnd) : Prop where
  dataP : g.dataP = f.dataP
  pcSave : g.pcSave = f.pcSave
  pcSaved : g.pcSaved = f.pcSaved
  icacheSaved : g.icacheSaved = f.icacheSaved
  forward : g.forwardPctypeSave = f.forwardPctypeSave
  pcnxtSave : g.icachePcnxtSave = f.icachePcnxtSave
  pcnxtSaved : g.icachePcnxtSaved = f.icachePcnxtSaved

theorem Unredirected.kept (h : f.Unredirected i) (hF : i.hazard.stallF = true) :
    Kept f (f.step i) := by
  constructor <;> simp [FrontEnd.step, h.saves, h.icache, hF]

theorem Kept.unsaved {g : FrontEnd} (h : Kept f g) (hf : f.Unsaved) : g.Unsaved where
  pcSaved := h.pcSaved.trans hf.pcSaved
  icacheSaved := h.icacheSaved.trans hf.icacheSaved
  icachePcnxtSaved := h.pcnxtSaved.trans hf.icachePcnxtSaved

theorem Kept.awaited {g : FrontEnd} (h : Kept f g) (ha : f.Awaited a m2)
    (hfi : g.fihazrd = f.fihazrd) (hm : m2 = .unknown → m2' = .unknown) : g.Awaited a m2' := by
  cases ha with
  | target pcSaved forward icacheSaved fihazrd pc =>
      exact .target (h.pcSaved.trans pcSaved) (by rw [h.forward]; exact forward)
        (h.icacheSaved.trans icacheSaved) (hfi.trans fihazrd) (h.pcSave.trans pc)
  | operation pcSaved forward icacheSaved fihazrd pcnxtSaved pc =>
      exact .operation (h.pcSaved.trans pcSaved) (by rw [h.forward]; exact forward)
        (h.icacheSaved.trans icacheSaved) (hfi.trans fihazrd) (h.pcnxtSaved.trans pcnxtSaved)
        (h.pcnxtSave.trans pc)
  | operating pcSaved icacheSaved cacheI fihazrd pcnxtSaved pc =>
      exact .operating (h.pcSaved.trans pcSaved) (h.icacheSaved.trans icacheSaved)
        (by rw [h.dataP]; exact cacheI) (hfi.trans fihazrd) (h.pcnxtSaved.trans pcnxtSaved)
        (h.pcnxtSave.trans pc)
  | asked pcSaved icacheSaved cacheI fihazrd pc idle =>
      exact .asked (h.pcSaved.trans pcSaved) (h.icacheSaved.trans icacheSaved)
        (by rw [h.dataP]; exact cacheI) (hfi.trans fihazrd) (by rw [h.dataP]; exact pc) (hm idle)

/-- A stall of all stages keeps the records as well. -/
theorem Approach.stall (h : f.Approach a dataD m2) (hu : f.Unredirected i)
    (hz : i.hazard = { stallF := true, stallF2 := true, stallD := true, stallI := true,
                       stallIDe := true, fihazrdNxt := f.fihazrd })
    (hm : m2 = .unknown → m2' = .unknown) : (f.step i).Approach a dataD m2' := by
  have hk : Kept f (f.step i) := hu.kept (by rw [hz])
  have hF1 : (f.step i).dataF1 = f.dataF1 := by simp [FrontEnd.step, hz, pipereg2]
  have hF2 : (f.step i).dataF2 = f.dataF2 := by simp [FrontEnd.step, hz, pipereg2]
  rcases h with ⟨hd, ha⟩ | ⟨hs, hf⟩
  · refine Or.inl ⟨⟨by rw [hF1]; exact hd.f1, by rw [hF2]; exact hd.f2, hd.d⟩, ?_⟩
    exact hk.awaited ha (by simp [FrontEnd.step, hz]) hm
  · refine Or.inr ⟨hk.unsaved hs, ?_⟩
    cases hf with
    | f1 f2 d valid pc =>
        exact .f1 (by rw [hF2]; exact f2) d (by rw [hF1]; exact valid) (by rw [hF1]; exact pc)
    | f2 d valid pc => exact .f2 d (by rw [hF2]; exact valid) (by rw [hF2]; exact pc)
    | decoded valid pc => exact .decoded valid pc

theorem step_dataF2 (hD : i.hazard.stallD = false) (hd : i.hazard.flushD = false) :
    (f.step i).dataF2 = dataF2Nxt f.dataF1 (instrWords i.respData f.rawInstrSave) := by
  simp [FrontEnd.step, hD, hd, pipereg2]

theorem Drained.advance (h : f.Drained dataD) (hD : i.hazard.stallD = false)
    (hd : i.hazard.flushD = false) (h1 : (f.step i).dataF1.valid = false) :
    (f.step i).Drained f.dataF2 :=
  ⟨h1, by rw [step_dataF2 hD hd]; exact h.f1, h.f2⟩

/-- The records of F1 and F2 go on; the one in the decoder reaches the queue. -/
theorem Fetched.advance (h : f.Fetched a dataD) (hD : i.hazard.stallD = false)
    (hd : i.hazard.flushD = false) :
    dataD.slot1.valid = true ∧ dataD.slot1.pc = a ∨
      dataD.slot1.valid = false ∧ (f.step i).Fetched a f.dataF2 := by
  have hF2 := step_dataF2 (f := f) hD hd
  cases h with
  | f1 f2 d valid pc =>
      exact Or.inr ⟨d, .f2 f2 (by rw [hF2]; exact valid) (by rw [hF2]; exact pc)⟩
  | f2 d valid pc => exact Or.inr ⟨d, .decoded valid pc⟩
  | decoded valid pc => exact Or.inl ⟨valid, pc⟩

/-- The fetch waits for the instruction cache: the records go on. -/
theorem Approach.wait (h : f.Approach a dataD m2) (hu : f.Unredirected i)
    (hz : i.hazard = { stallF := true, flushF2 := true, fihazrdNxt := f.fihazrd })
    (hm : m2 = .unknown → m2' = .unknown) :
    (f.step i).Unsaved ∧ dataD.slot1.valid = true ∧ dataD.slot1.pc = a ∨
      dataD.slot1.valid = false ∧ (f.step i).Approach a f.dataF2 m2' := by
  have hk : Kept f (f.step i) := hu.kept (by rw [hz])
  have hD : i.hazard.stallD = false := by rw [hz]
  have hd : i.hazard.flushD = false := by rw [hz]
  rcases h with ⟨hdr, ha⟩ | ⟨hs, hf⟩
  · have h1 : (f.step i).dataF1.valid = false := by simp [FrontEnd.step, hz, pipereg2]
    exact Or.inr ⟨hdr.d, Or.inl ⟨hdr.advance hD hd h1,
      hk.awaited ha (by simp [FrontEnd.step, hz]) hm⟩⟩
  · rcases hf.advance hD hd with hv | ⟨hv, hf'⟩
    · exact Or.inl ⟨hk.unsaved hs, hv⟩
    · exact Or.inr ⟨hv, Or.inr ⟨hk.unsaved hs, hf'⟩⟩

/-- The fetch goes on: what is saved is taken up, or the fetch at `a` is accepted. -/
theorem Awaited.accept (h : f.Awaited a m2) (hu : f.Unredirected i)
    (hz : i.hazard = { flushF2 := f.fihazrd }) (hw : i.iWait = false)
    (hi : i.redirects.m1IcacheInst = m2) :
    (f.step i).dataF1.valid = false ∧ (f.step i).Awaited a .unknown ∨
      (f.step i).Unsaved ∧ (f.step i).dataF1.valid = true ∧ (f.step i).dataF1.pc = a := by
  have hP : (f.step i).dataP = f.dataPNxt i := by simp [FrontEnd.step, hz]
  have hpcS : (f.step i).pcSaved = false := by simp [FrontEnd.step, hu.saves, hz]
  have hicS : (f.step i).icacheSaved = false := by simp [FrontEnd.step, hu.saves, hz]
  have hfi : (f.step i).fihazrd = false := by simp [FrontEnd.step, hz]
  have htaken (hs : f.pcSaved = true) (hf : f.forwardPctypeSave ≠ .noForward) :
      f.dataPNxt i = { pc := f.pcSave, cacheI := f.icacheSaved, icacheInst := f.icacheInstSave } := by
    have hr : (f.selected i).1.rank < f.forwardPctypeSave.rank := by
      rw [hu.forward]
      cases hc : f.forwardPctypeSave <;> first | exact absurd hc hf | decide
    rw [dataPNxt, hs]
    exact if_pos (by simpa using hr)
  cases h with
  | target pcSaved forward icacheSaved fihazrd pc =>
      refine Or.inl ⟨by simp [FrontEnd.step, hz, fihazrd, pipereg2], .asked hpcS hicS ?_ hfi ?_ rfl⟩
      · rw [hP, htaken pcSaved forward]
        exact icacheSaved
      · rw [hP, htaken pcSaved forward]
        exact pc
  | operation pcSaved forward icacheSaved fihazrd pcnxtSaved pc =>
      refine Or.inl ⟨by simp [FrontEnd.step, hz, fihazrd, pipereg2],
        .operating hpcS hicS ?_ hfi ?_ ?_⟩
      · rw [hP, htaken pcSaved forward]
        exact icacheSaved
      · simp [FrontEnd.step, hu.icache, icacheSaved, pcnxtSaved]
      · simpa [FrontEnd.step, hu.icache, icacheSaved] using pc
  | operating pcSaved icacheSaved cacheI fihazrd pcnxtSaved pc =>
      have hn : f.dataPNxt i = { pc := f.icachePcnxtSave, cacheI := false } := by
        simp [dataPNxt, pcSaved, pcnxtSaved, hu.icache]
      refine Or.inl ⟨?_, .asked hpcS hicS ?_ hfi ?_ rfl⟩
      · simp [FrontEnd.step, hz, fihazrd, pipereg2, dataF1Nxt, cacheI]
      · rw [hP, hn]
      · rw [hP, hn]
        exact pc
  | asked pcSaved icacheSaved cacheI fihazrd pc idle =>
      have hF1 : (f.step i).dataF1 = dataF1Nxt f.dataP i.iTlbExc (f.env i) := by
        simp [FrontEnd.step, hz, fihazrd, pipereg2]
      refine Or.inr ⟨⟨hpcS, hicS, ?_⟩, ?_, ?_⟩
      · simp [FrontEnd.step, hu.icache, icacheSaved, hz]
      · rw [hF1]
        simp [dataF1Nxt, FrontEnd.env, hi, idle, hw, icacheSaved, cacheI]
      · rw [hF1]
        exact pc

/-- The fetch and the records go on. -/
theorem Approach.go (h : f.Approach a dataD m2) (hu : f.Unredirected i)
    (hz : i.hazard = { flushF2 := f.fihazrd }) (hw : i.iWait = false)
    (hi : i.redirects.m1IcacheInst = m2) :
    (f.step i).Unsaved ∧ dataD.slot1.valid = true ∧ dataD.slot1.pc = a ∨
      dataD.slot1.valid = false ∧ (f.step i).Approach a f.dataF2 .unknown := by
  have hD : i.hazard.stallD = false := by rw [hz]
  have hd : i.hazard.flushD = false := by rw [hz]
  rcases h with ⟨hdr, ha⟩ | ⟨hs, hf⟩
  · refine Or.inr ⟨hdr.d, ?_⟩
    rcases ha.accept hu hz hw hi with ⟨h1, ha'⟩ | ⟨hs, h1, hpc⟩
    · exact Or.inl ⟨hdr.advance hD hd h1, ha'⟩
    · refine Or.inr ⟨hs, .f1 ?_ hdr.f2 h1 hpc⟩
      rw [step_dataF2 hD hd]
      exact hdr.f1
  · have hs' : (f.step i).Unsaved := by
      constructor <;> simp [FrontEnd.step, hu.saves, hu.icache, hz, hs.icacheSaved]
    rcases hf.advance hD hd with hv | ⟨hv, hf'⟩
    · exact Or.inl ⟨hs', hv⟩
    · exact Or.inr ⟨hv, Or.inr ⟨hs', hf'⟩⟩

/-- The selected target is that of the redirect, unless it is an operation of the instruction
cache. -/
theorem selected_of_raised {l : ForwardPcType} (hr : i.redirects.raised = some (l, a))
    (hop : i.redirects.icache = true → l = .pcm) :
    (f.selected i).1 = l ∧ l ≠ .noForward ∧
      (i.redirects.icache = false → (f.selected i).2 = a) ∧
      (i.redirects.icache = true → i.redirects.pcM + 4#32 = a) := by
  rcases i.redirects.raised_cases (f.dataP.pc + 8#32) (f.env i).zeroPrej
      (i.prediction.taken && !(f.env i).zeroPrej) i.prediction.prePc with
    ⟨hn, -⟩ | ⟨b, hb, hs, -⟩ | ⟨hb, hs, -, hi⟩ | ⟨hb, hs, -, hi, -⟩
  · rw [hn] at hr
    cases hr
  · rw [hb] at hr
    cases hr
    rw [FrontEnd.selected, hs]
    exact ⟨rfl, by decide, fun _ => rfl, fun hi => by cases hop hi⟩
  · rw [hb] at hr
    cases hr
    exact ⟨hs, by decide, fun hn => (by rw [hi] at hn; cases hn), fun _ => rfl⟩
  · rw [hb] at hr
    cases hr
    rw [FrontEnd.selected, hs]
    exact ⟨rfl, by decide, fun _ => rfl, fun hn => by rw [hi] at hn; cases hn⟩

/-- A squash with a redirect: the target is saved, or taken at once. -/
theorem approach_of_squash {l : ForwardPcType}
    (hz : i.hazard = { flushF2 := true, flushD := true, flushI := true, flushQue := true,
                       stallF := i.iWait, fihazrdNxt := i.iWait })
    (hr : i.redirects.raised = some (l, a)) (hop : i.redirects.icache = true → l = .pcm)
    (hsaved : i.iWait = true → f.icacheSaved = true → i.redirects.icache = true)
    (hrank : f.pcSaved = true → ¬ l.rank < f.forwardPctypeSave.rank)
    (hpcnxt : i.iWait = false → f.icachePcnxtSaved = true → f.pcSaved = true)
    (hm : i.redirects.icache = false → m2' = .unknown) :
    (f.step i).Approach a ⟨{}, {}⟩ m2' := by
  obtain ⟨hl, hln, hbranch, hicache⟩ := selected_of_raised (f := f) hr hop
  have hdr : (f.step i).Drained ⟨{}, {}⟩ := by
    constructor <;> simp [FrontEnd.step, hz, pipereg2]
  refine Or.inl ⟨hdr, ?_⟩
  cases hw : i.iWait with
  | true =>
      have hsaves : f.saves i = true := by
        rw [FrontEnd.saves, hz, hw, hl]
        simpa using hln
      have hty : (f.step i).forwardPctypeSave ≠ .noForward := by
        simpa [FrontEnd.step, hsaves, hl] using hln
      cases hi : i.redirects.icache with
      | true =>
          refine .operation (by simp [FrontEnd.step, hsaves]) hty ?_ ?_ ?_ ?_
          · simp [FrontEnd.step, hsaves, hi]
          · simp [FrontEnd.step, hz, hw]
          · simp [FrontEnd.step, hi]
          · simpa [FrontEnd.step, hi] using hicache hi
      | false =>
          have hno : f.icacheSaved = false := by
            rw [Bool.eq_false_iff]
            intro hs
            rw [hsaved hw hs] at hi
            cases hi
          refine .target (by simp [FrontEnd.step, hsaves]) hty ?_ ?_ ?_
          · simp [FrontEnd.step, hsaves, hi, hno]
          · simp [FrontEnd.step, hz, hw]
          · simpa [FrontEnd.step, hsaves] using hbranch hi
  | false =>
      have hsaves : f.saves i = false := by rw [FrontEnd.saves, hz, hw]; rfl
      have hpcS : (f.step i).pcSaved = false := by simp [FrontEnd.step, hsaves, hz, hw]
      have hicS : (f.step i).icacheSaved = false := by simp [FrontEnd.step, hsaves, hz, hw]
      have hfi : (f.step i).fihazrd = false := by simp [FrontEnd.step, hz, hw]
      have hP : (f.step i).dataP = { pc := (f.selected i).2, cacheI := i.redirects.icache } := by
        have h1 : (f.pcSaved && (decide ((f.selected i).1.rank < f.forwardPctypeSave.rank))) =
            false := by
          rw [hl]
          cases hp : f.pcSaved with
          | false => rfl
          | true => simpa using hrank hp
        have h2 : (f.icachePcnxtSaved && !f.pcSaved) = false := by
          cases hp : f.icachePcnxtSaved with
          | false => rfl
          | true => simp [hpcnxt hw hp]
        have hnxt : (f.step i).dataP = f.dataPNxt i := by simp [FrontEnd.step, hz, hw]
        rw [hnxt, dataPNxt, h1, h2]
        rfl
      cases hi : i.redirects.icache with
      | true =>
          refine .operating hpcS hicS (by rw [hP, hi]) hfi ?_ ?_
          · simp [FrontEnd.step, hi]
          · simpa [FrontEnd.step, hi] using hicache hi
      | false =>
          exact .asked hpcS hicS (by rw [hP, hi]) hfi (by rw [hP]; exact hbranch hi) (hm hi)

end Step

end FrontEnd

end FrailCPU
