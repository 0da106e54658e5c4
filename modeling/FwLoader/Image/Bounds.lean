import FwLoader.Foundations.Contracts
import FwLoader.Image.FileWalk
import FwLoader.Image.FlashWalk

/-!
# Offsets of the TLV loops

Both loops step over what the headers they read say about lengths, whatever that is. Since the area
is small and files cannot be sought far, the end of the region starts low enough for the sums of
`size_t` to stay exact, and then each round takes the loop at least four bytes further.
-/

namespace FwLoader.Image

open Foundations

/-! ## One round -/

section

variable {T : RuuviTlvTypes} {tlvsEndOff : ℕ} {st : ScanState}

/-- What a loop does when its test fails or a round goes on: the round has passed the test, and
steps over the TLV header it has read and the length that stands in it. -/
def StepsOver (tlvsEndOff : ℕ) (st : ScanState) : ScanState ⊕ (Bool × FwImageHwRev) → Prop
  | .inl st' => sizeT (st.dataOff + ImageTlv.size) ≤ tlvsEndOff ∧
      st'.dataOff = sizeT (st.dataOff + (ImageTlv.size + st'.tlv.itLen.toNat))
  | .inr _ => True

theorem flashScanBody_ensures :
    (flashScanBody T tlvsEndOff st).Ensures (StepsOver tlvsEndOff st) := by
  unfold flashScanBody
  refine Prog.ensures_ite (fun htest => ?_) fun _ => trivial
  refine Prog.ensures_perform_bind fun r => Prog.ensures_ite (fun _ => trivial) fun _ => ?_
  refine (Prog.ensures_true _).bind fun res _ => Prog.ensures_ite (fun _ => trivial) fun _ => ?_
  exact Prog.ensures_ite (fun _ => trivial) fun _ => ⟨htest, rfl⟩

theorem fileScanBody_ensures :
    (fileScanBody T tlvsEndOff st).Ensures (StepsOver tlvsEndOff st) := by
  unfold fileScanBody
  refine Prog.ensures_ite (fun htest => ?_) fun _ => trivial
  refine Prog.ensures_perform_bind fun rc => Prog.ensures_ite (fun _ => trivial) fun _ => ?_
  refine Prog.ensures_perform_bind fun r => Prog.ensures_ite (fun _ => trivial) fun _ => ?_
  refine (Prog.ensures_true _).bind fun res _ => Prog.ensures_ite (fun _ => trivial) fun _ => ?_
  exact Prog.ensures_ite (fun _ => trivial) fun _ => ⟨htest, rfl⟩

end

/-! ## All rounds -/

section

variable {E : Interface} {σ : Type} {body : ScanState → Prog E (ScanState ⊕ (Bool × FwImageHwRev))}
  {H : Handler E σ} {tlvsEndOff n : ℕ} {st st' : ScanState} {s s' : σ}

/-- The exact sums of the test of a round and, if the round goes on, of its step. -/
def roundSums (body : ScanState → Prog E (ScanState ⊕ (Bool × FwImageHwRev))) (H : Handler E σ)
    (r : ScanState × σ) : List ℕ :=
  (r.1.dataOff + ImageTlv.size) :: match ((body r.1).run H r.2).1 with
    | .inl st' => [r.1.dataOff + (ImageTlv.size + st'.tlv.itLen.toNat)]
    | .inr _ => []

/-- The end of the region leaves room for one more header of the largest length behind it. -/
def Low (tlvsEndOff : ℕ) : Prop := tlvsEndOff + 2 ^ 16 + 8 ≤ 2 ^ 32

/-- `data_off` lies no further behind the region than one step takes it. -/
def Near (tlvsEndOff : ℕ) (st : ScanState) : Prop := st.dataOff < tlvsEndOff + 2 ^ 16

/-- A round that goes on from near the region makes an exact step from inside it. -/
theorem step_of_inl (hbody : ∀ st, (body st).Ensures (StepsOver tlvsEndOff st))
    (hlow : Low tlvsEndOff) (hnear : Near tlvsEndOff st)
    (hrun : (body st).run H s = (.inl st', s')) :
    st.dataOff + ImageTlv.size ≤ tlvsEndOff ∧
      st'.dataOff = st.dataOff + (ImageTlv.size + st'.tlv.itLen.toNat) ∧ Near tlvsEndOff st' := by
  have hsteps := (hbody st).run H s
  rw [hrun] at hsteps
  obtain ⟨htest, hoff⟩ := hsteps
  have hlen := st'.tlv.itLen.toNat_lt
  have hsize : ImageTlv.size = 4 := rfl
  unfold Low at hlow
  unfold Near at hnear ⊢
  rw [sizeT_of_lt (by omega)] at htest hoff
  exact ⟨htest, hoff, by omega⟩

theorem near_of_mem_rounds (hbody : ∀ st, (body st).Ensures (StepsOver tlvsEndOff st))
    (hlow : Low tlvsEndOff) (hnear : Near tlvsEndOff st) :
    ∀ r ∈ Prog.rounds body H n st s, Near tlvsEndOff r.1 ∧ st.dataOff ≤ r.1.dataOff := by
  refine Prog.forall_mem_rounds (I := fun st₁ => Near tlvsEndOff st₁ ∧ st.dataOff ≤ st₁.dataOff)
    ⟨hnear, le_rfl⟩ fun st₁ s₁ st₂ s₂ hst₁ hrun => ?_
  obtain ⟨-, hoff, hnear₂⟩ := step_of_inl hbody hlow hst₁.1 hrun
  exact ⟨hnear₂, by omega⟩

/-- None of the sums of the rounds is too large for a `size_t`. -/
theorem roundSums_lt (hbody : ∀ st, (body st).Ensures (StepsOver tlvsEndOff st))
    (hlow : Low tlvsEndOff) (hnear : Near tlvsEndOff st) :
    ∀ r ∈ Prog.rounds body H n st s, ∀ x ∈ roundSums body H r, x < 2 ^ 32 := by
  rintro ⟨st₁, s₁⟩ hr x hx
  have hnear₁ : Near tlvsEndOff st₁ := (near_of_mem_rounds hbody hlow hnear _ hr).1
  have hsize : ImageTlv.size = 4 := rfl
  rcases hrun : (body st₁).run H s₁ with ⟨st₂ | res, s₂⟩
  · obtain ⟨htest, -, -⟩ := step_of_inl hbody hlow hnear₁ hrun
    have hlen := st₂.tlv.itLen.toNat_lt
    simp only [roundSums, hrun, List.mem_cons, List.not_mem_nil, or_false] at hx
    unfold Low at hlow
    omega
  · simp only [roundSums, hrun, List.mem_cons, List.not_mem_nil, or_false] at hx
    unfold Low at hlow
    unfold Near at hnear₁
    omega

/-- The rounds come to strictly increasing offsets. -/
theorem pairwise_rounds (hbody : ∀ st, (body st).Ensures (StepsOver tlvsEndOff st))
    (hlow : Low tlvsEndOff) (hnear : Near tlvsEndOff st) :
    (Prog.rounds body H n st s).Pairwise fun r r' => r.1.dataOff < r'.1.dataOff := by
  induction n generalizing st s with
  | zero => exact List.Pairwise.nil
  | succ n ih =>
    rcases hrun : (body st).run H s with ⟨st' | res, s'⟩
    · obtain ⟨-, hoff, hnear'⟩ := step_of_inl hbody hlow hnear hrun
      have hsize : ImageTlv.size = 4 := rfl
      rw [Prog.rounds_inl hrun]
      refine List.Pairwise.cons (fun r hr => ?_) (ih hnear')
      have hle := (near_of_mem_rounds hbody hlow hnear' r hr).2
      show st.dataOff < r.1.dataOff
      omega
    · rw [Prog.rounds_inr hrun]
      exact List.pairwise_singleton _ _

/-- The test of the loops. -/
def Enters (tlvsEndOff : ℕ) (st : ScanState) : Prop :=
  sizeT (st.dataOff + ImageTlv.size) ≤ tlvsEndOff

instance : DecidablePred (Enters tlvsEndOff) := fun _ => inferInstanceAs (Decidable (_ ≤ _))

/-- The rounds that pass the test are at least four bytes apart, and at most one more begins. -/
theorem length_rounds_le (hbody : ∀ st, (body st).Ensures (StepsOver tlvsEndOff st))
    (hlow : Low tlvsEndOff) (hnear : Near tlvsEndOff st) :
    ((Prog.rounds body H n st s).filter fun r => Enters tlvsEndOff r.1).length ≤
        (tlvsEndOff - st.dataOff) / ImageTlv.size ∧
      (Prog.rounds body H n st s).length ≤ (tlvsEndOff - st.dataOff) / ImageTlv.size + 1 := by
  have hsize : ImageTlv.size = 4 := rfl
  induction n generalizing st s with
  | zero => exact ⟨Nat.zero_le _, Nat.zero_le _⟩
  | succ n ih =>
    rcases hrun : (body st).run H s with ⟨st' | res, s'⟩
    · obtain ⟨htest, hoff, hnear'⟩ := step_of_inl hbody hlow hnear hrun
      obtain ⟨hfilter, hlength⟩ := ih (s := s') hnear'
      have hcons := List.length_filter_le (fun r : ScanState × σ => Enters tlvsEndOff r.1) [(st, s)]
      rw [Prog.rounds_inl hrun, ← List.singleton_append, List.filter_append, List.length_append,
        List.length_append]
      rw [List.length_singleton] at hcons ⊢
      rw [hsize] at htest hoff hfilter hlength ⊢
      omega
    · rw [Prog.rounds_inr hrun]
      refine ⟨?_, Nat.le_add_left _ _⟩
      by_cases hent : Enters tlvsEndOff st
      · have htest : st.dataOff + ImageTlv.size ≤ tlvsEndOff := by
          unfold Enters at hent
          unfold Low at hlow
          unfold Near at hnear
          rwa [sizeT_of_lt (by omega)] at hent
        have hle := List.length_filter_le (fun r : ScanState × σ => Enters tlvsEndOff r.1) [(st, s)]
        rw [List.length_singleton] at hle
        rw [hsize] at htest ⊢
        omega
      · rw [List.filter_cons_of_neg (by simpa using hent)]
        exact Nat.zero_le _

/-- The rounds of a loop that read a header: those that pass the test. -/
def headerRounds (body : ScanState → Prog E (ScanState ⊕ (Bool × FwImageHwRev))) (H : Handler E σ)
    (tlvsEndOff n : ℕ) (st : ScanState) (s : σ) : List (ScanState × σ) :=
  (Prog.rounds body H n st s).filter fun r => Enters tlvsEndOff r.1

/-- What a loop over `tot` bytes of TLVs should do: it returns, its sums are exact, and each of its
rounds reads one header, no more of them than fit into these bytes and each one further than the one
before. `round off` are the calls made for the header at `off`. -/
structure LoopBounds (body : ScanState → Prog E (ScanState ⊕ (Bool × FwImageHwRev)))
    (H : Handler E σ) (round : ℕ → List (Event E) → Prop) (tlvsEndOff tot n : ℕ) (st : ScanState)
    (s : σ) : Prop where
  returns : ∃ res, ((Prog.loop body n st).run H s).1 = some res
  sums_lt : ∀ r ∈ Prog.rounds body H n st s, ∀ x ∈ roundSums body H r, x < 2 ^ 32
  trace_eq : (Prog.loop body n st).trace H s =
    (headerRounds body H tlvsEndOff n st s).flatMap fun r => (body r.1).trace H r.2
  rounds : ∀ r ∈ headerRounds body H tlvsEndOff n st s, round r.1.dataOff ((body r.1).trace H r.2)
  increasing : (headerRounds body H tlvsEndOff n st s).Pairwise fun r r' =>
    r.1.dataOff < r'.1.dataOff
  length_le : (headerRounds body H tlvsEndOff n st s).length ≤ tot / ImageTlv.size

/-- Behind the rounds that fail the test there are no calls. -/
theorem flatMap_trace_eq_filter {rs : List (ScanState × σ)}
    (hexit : ∀ st s, ¬Enters tlvsEndOff st → (body st).trace H s = []) :
    (rs.flatMap fun r => (body r.1).trace H r.2) =
      (rs.filter fun r => Enters tlvsEndOff r.1).flatMap fun r => (body r.1).trace H r.2 := by
  induction rs with
  | nil => rfl
  | cons r rs ih =>
    by_cases hent : Enters tlvsEndOff r.1
    · rw [List.filter_cons_of_pos (by simpa using hent), List.flatMap_cons, List.flatMap_cons, ih]
    · rw [List.filter_cons_of_neg (by simpa using hent), List.flatMap_cons, hexit _ _ hent, ih,
        List.nil_append]

theorem loopBounds {round : ℕ → List (Event E) → Prop} {tot : ℕ}
    (hbody : ∀ st, (body st).Ensures (StepsOver tlvsEndOff st)) (hlow : Low tlvsEndOff)
    (hround : ∀ st s, Near tlvsEndOff st → Enters tlvsEndOff st →
      round st.dataOff ((body st).trace H s))
    (hexit : ∀ st s, ¬Enters tlvsEndOff st → (body st).trace H s = [])
    (hend : tlvsEndOff = st.dataOff + tot) (hn : tot / ImageTlv.size + 1 < n) :
    LoopBounds body H round tlvsEndOff tot n st s := by
  have hnear : Near tlvsEndOff st := by
    unfold Near
    omega
  have htot : tlvsEndOff - st.dataOff = tot := by omega
  obtain ⟨hfilter, hlength⟩ := length_rounds_le (H := H) (n := n) (s := s) hbody hlow hnear
  rw [htot] at hfilter hlength
  refine ⟨Prog.run_loop_of_length_rounds_lt (by omega), roundSums_lt hbody hlow hnear, ?_, ?_,
    (pairwise_rounds hbody hlow hnear).filter _, hfilter⟩
  · rw [Prog.trace_loop_eq_flatMap_rounds, flatMap_trace_eq_filter hexit, headerRounds]
  · rintro ⟨st₁, s₁⟩ hr
    obtain ⟨hmem, hent⟩ := List.mem_filter.mp hr
    exact hround st₁ s₁ (near_of_mem_rounds hbody hlow hnear _ hmem).1 (by simpa using hent)

end

/-! ## The handlers of a TLV -/

section

variable {E : Interface} {P : E.Call → Prop} {c₁ c₂ : Prop} [Decidable c₁] [Decidable c₂]

/-- A handler for one type: two tests, then the value is read. -/
theorem onlyCalls_readValue {α : Type} {c : E.Call} {a b : α} {f : E.Answer c → Prog E α} (hc : P c)
    (hf : ∀ r, (f r).OnlyCalls P) :
    (if c₁ then pure a else if c₂ then pure b else Prog.perform c >>= f).OnlyCalls P :=
  Prog.onlyCalls_ite (fun _ => trivial) fun _ =>
    Prog.onlyCalls_ite (fun _ => trivial) fun _ => Prog.onlyCalls_perform_bind hc hf

/-- The handler for an ID, then the one for a name. -/
theorem onlyCalls_handleTlv {r : FwImageHwRev} {p : Prog E (Bool × FwImageHwRev)}
    {q : FwImageHwRev → Prog E (Bool × FwImageHwRev)} (hp : p.OnlyCalls P)
    (hq : ∀ r', (q r').OnlyCalls P) :
    let rest := fun res : Bool × FwImageHwRev =>
      if res.1 = false then pure res else if c₂ then q res.2 else pure res
    (if c₁ then p >>= rest else pure (true, r) >>= rest).OnlyCalls P := by
  intro rest
  have hrest : ∀ res, (rest res).OnlyCalls P := by
    intro res
    exact Prog.onlyCalls_ite (fun _ => trivial) fun _ =>
      Prog.onlyCalls_ite (fun _ => hq _) fun _ => trivial
  exact Prog.onlyCalls_ite (fun _ => hp.bind hrest) fun _ => (Prog.onlyCalls_pure _).bind hrest

/-- A handler for one type reads at most one value. -/
theorem length_readValue_le {α : Type} {c : E.Call} {a b : α} {f : E.Answer c → Prog E α}
    (hf : ∀ r, (f r).Relates fun es _ => es = []) :
    (if c₁ then pure a else if c₂ then pure b else Prog.perform c >>= f).Relates fun es _ =>
      es.length ≤ 1 := by
  refine Prog.relates_ite (fun _ => Nat.zero_le 1) fun _ =>
    Prog.relates_ite (fun _ => Nat.zero_le 1) fun _ => ?_
  refine Prog.relates_perform_bind fun r => (hf r).mono fun es _ hes => ?_
  rw [hes]
  exact le_rfl

/-- No TLV is an ID and a name, so at most one of the two handlers reads. -/
theorem length_handleTlv_le (hne : c₁ → ¬c₂) {r : FwImageHwRev} {p : Prog E (Bool × FwImageHwRev)}
    {q : FwImageHwRev → Prog E (Bool × FwImageHwRev)} (hp : p.Relates fun es _ => es.length ≤ 1)
    (hq : ∀ r', (q r').Relates fun es _ => es.length ≤ 1) :
    let rest := fun res : Bool × FwImageHwRev =>
      if res.1 = false then pure res else if c₂ then q res.2 else pure res
    (if c₁ then p >>= rest else pure (true, r) >>= rest).Relates fun es _ => es.length ≤ 1 := by
  intro rest
  refine Prog.relates_ite (fun h₁ => hp.bind fun es res hes => ?_) fun _ => ?_
  · have hes' : (es ++ []).length ≤ 1 := by rwa [List.append_nil]
    refine Prog.relates_ite (fun _ => hes') fun _ => ?_
    exact Prog.relates_ite (fun h₂ => absurd h₂ (hne h₁)) fun _ => hes'
  · exact Prog.relates_ite (fun _ => hq _) fun _ => Nat.zero_le 1

end

/-! ## The loop over a flash area -/

section

variable {T : RuuviTlvTypes} {σ : Type} {H : FlashDevice σ} {tlvsEndOff : ℕ} {st : ScanState}

/-- The header at `off` is read, and then at most the value behind it. -/
def FlashRound (off : ℕ) (es : List (Event flashApi)) : Prop :=
  ∃ a es', es = ⟨FlashCall.flashAreaRead off ImageTlv.size, a⟩ :: es' ∧ es'.length ≤ 1 ∧
    ∀ e ∈ es', ∃ len, e.call = FlashCall.flashAreaRead (off + ImageTlv.size) len

theorem onlyCalls_handleTlvInFlashArea (tlv : ImageTlv) (off : ℕ) (r : FwImageHwRev) :
    (fwImgHwRevHandleTlvHwRevInFlashArea T tlv off r).OnlyCalls fun c =>
      ∃ len, c = FlashCall.flashAreaRead (sizeT (off + ImageTlv.size)) len := by
  refine onlyCalls_handleTlv ?_ fun r' => ?_
  · exact onlyCalls_readValue ⟨4, rfl⟩ fun a =>
      Prog.onlyCalls_ite (fun _ => trivial) fun _ => trivial
  · exact onlyCalls_readValue ⟨_, rfl⟩ fun a =>
      Prog.onlyCalls_ite (fun _ => trivial) fun _ => trivial

theorem length_handleTlvInFlashArea_le (tlv : ImageTlv) (off : ℕ) (r : FwImageHwRev) :
    (fwImgHwRevHandleTlvHwRevInFlashArea T tlv off r).Relates fun es _ => es.length ≤ 1 := by
  refine length_handleTlv_le (fun hid hname => T.id_ne_name (hid.trans hname.symm)) ?_ fun r' => ?_
  · exact length_readValue_le fun a => Prog.relates_ite (fun _ => rfl) fun _ => rfl
  · exact length_readValue_le fun a => Prog.relates_ite (fun _ => rfl) fun _ => rfl

theorem flashRound_trace (hlow : Low tlvsEndOff) (s : σ) (hnear : Near tlvsEndOff st)
    (hent : Enters tlvsEndOff st) :
    FlashRound st.dataOff ((flashScanBody T tlvsEndOff st).trace H s) := by
  have hsize : ImageTlv.size = 4 := rfl
  have hoff : sizeT (st.dataOff + ImageTlv.size) = st.dataOff + ImageTlv.size := by
    unfold Low at hlow
    unfold Near at hnear
    exact sizeT_of_lt (by omega)
  have htest : sizeT (st.dataOff + ImageTlv.size) ≤ tlvsEndOff := hent
  unfold flashScanBody
  rw [if_pos htest, FlashDevice.trace_flashAreaRead_bind]
  refine ⟨_, _, rfl, ?_, Prog.OnlyCalls.trace (P := fun c =>
    ∃ len, c = FlashCall.flashAreaRead (st.dataOff + ImageTlv.size) len) ?_ H _⟩
  · refine Prog.Relates.run (Q := fun es _ => es.length ≤ 1) ?_ H _
    refine Prog.relates_ite (fun _ => Nat.zero_le 1) fun _ => ?_
    refine (length_handleTlvInFlashArea_le _ _ _).bind fun es res hes => ?_
    have hes' : (es ++ []).length ≤ 1 := by rwa [List.append_nil]
    exact Prog.relates_ite (fun _ => hes') fun _ => Prog.relates_ite (fun _ => hes') fun _ => hes'
  · refine Prog.onlyCalls_ite (fun _ => trivial) fun _ => ?_
    refine Prog.OnlyCalls.bind ?_ fun res => ?_
    · rw [← hoff]
      exact onlyCalls_handleTlvInFlashArea _ _ _
    · exact Prog.onlyCalls_ite (fun _ => trivial) fun _ =>
        Prog.onlyCalls_ite (fun _ => trivial) fun _ => trivial

theorem trace_flashScanBody_of_not_enters (s : σ) (h : ¬Enters tlvsEndOff st) :
    (flashScanBody T tlvsEndOff st).trace H s = [] := by
  have htest : ¬sizeT (st.dataOff + ImageTlv.size) ≤ tlvsEndOff := h
  rw [flashScanBody, if_neg htest, Prog.trace_pure]

/-- `it_tlv_tot` of the info header that is read at `off`. -/
def FlashDevice.itTlvTot (H : FlashDevice σ) (s : σ) (off : ℕ) : ℕ :=
  (ImageTlvInfo.load (H.read s off ImageTlvInfo.size).bytes).itTlvTot.toNat

/-- `find_tlvs_in_flash_area` reads the info header and nothing else. -/
theorem trace_findTlvsInFlashArea (magic : UInt16) (off : ℕ) (s : σ) :
    (findTlvsInFlashArea magic off).trace H s =
      [⟨FlashCall.flashAreaRead off ImageTlvInfo.size, H.read s off ImageTlvInfo.size⟩] := by
  rw [findTlvsInFlashArea, FlashDevice.trace_flashAreaRead_bind]
  simp only [Prog.trace_ite, Prog.trace_pure, ite_self]

/-- What `find_tlvs_in_flash_area` makes of an info header that it can read. -/
theorem findTlvsInFlashArea_eq_some {magic : UInt16} {off start stop : ℕ} {s s' : σ}
    (h : (findTlvsInFlashArea magic off).run H s = (some (start, stop), s')) :
    (H.read s off ImageTlvInfo.size).rc = 0 ∧ start = sizeT (off + ImageTlvInfo.size) ∧
      stop = sizeT (start + H.itTlvTot s off) := by
  unfold findTlvsInFlashArea at h
  simp only [FlashDevice.run_flashAreaRead_bind, Prog.run_ite, Prog.run_pure] at h
  split at h
  · exact absurd (congrArg Prod.fst h) (by simp)
  rename_i hrc
  split at h
  · exact absurd (congrArg Prod.fst h) (by simp)
  · obtain ⟨hstart, hstop⟩ := Prod.mk.inj (Option.some.inj (congrArg Prod.fst h))
    exact ⟨not_not.mp hrc, hstart.symm, by rw [← hstart]; exact hstop.symm⟩

end

/-! ## The loop over a file -/

section

variable {T : RuuviTlvTypes} {σ : Type} {H : FsFile σ} {tlvsEndOff : ℕ} {st : ScanState}

/-- The file is sought to `off`. If that succeeds, the header is read there, and then at most the
value behind it. -/
def FileRound (off : ℕ) (es : List (Event fsApi)) : Prop :=
  ∃ rc es', es = ⟨FsCall.fsSeek off, rc⟩ :: es' ∧
    (rc ≠ (0 : ℤ) ∧ es' = [] ∨ ∃ a es'', es' = ⟨FsCall.fsRead ImageTlv.size, a⟩ :: es'' ∧
      es''.length ≤ 1 ∧ ∀ e ∈ es'', ∃ len, e.call = FsCall.fsRead len)

theorem onlyCalls_handleTlvInFile (tlv : ImageTlv) (r : FwImageHwRev) :
    (fwImgHwRevHandleTlvHwRevInFile T tlv r).OnlyCalls fun c => ∃ len, c = FsCall.fsRead len := by
  refine onlyCalls_handleTlv ?_ fun r' => ?_
  · exact onlyCalls_readValue ⟨4, rfl⟩ fun a =>
      Prog.onlyCalls_ite (fun _ => trivial) fun _ => trivial
  · exact onlyCalls_readValue ⟨_, rfl⟩ fun a =>
      Prog.onlyCalls_ite (fun _ => trivial) fun _ => trivial

theorem length_handleTlvInFile_le (tlv : ImageTlv) (r : FwImageHwRev) :
    (fwImgHwRevHandleTlvHwRevInFile T tlv r).Relates fun es _ => es.length ≤ 1 := by
  refine length_handleTlv_le (fun hid hname => T.id_ne_name (hid.trans hname.symm)) ?_ fun r' => ?_
  · exact length_readValue_le fun a => Prog.relates_ite (fun _ => rfl) fun _ => rfl
  · exact length_readValue_le fun a => Prog.relates_ite (fun _ => rfl) fun _ => rfl

theorem fileRound_trace (s : σ) (hent : Enters tlvsEndOff st) :
    FileRound st.dataOff ((fileScanBody T tlvsEndOff st).trace H s) := by
  have htest : sizeT (st.dataOff + ImageTlv.size) ≤ tlvsEndOff := hent
  unfold fileScanBody
  rw [if_pos htest, FsFile.trace_fsSeek_bind]
  refine ⟨_, _, rfl, ?_⟩
  rw [Prog.trace_ite]
  split
  · rename_i hrc
    exact .inl ⟨hrc, Prog.trace_pure _ _ _⟩
  rw [FsFile.trace_fsRead_bind]
  refine .inr ⟨_, _, rfl, ?_,
    Prog.OnlyCalls.trace (P := fun c => ∃ len, c = FsCall.fsRead len) ?_ H _⟩
  · refine Prog.Relates.run (Q := fun es _ => es.length ≤ 1) ?_ H _
    refine Prog.relates_ite (fun _ => Nat.zero_le 1) fun _ => ?_
    refine (length_handleTlvInFile_le _ _).bind fun es res hes => ?_
    have hes' : (es ++ []).length ≤ 1 := by rwa [List.append_nil]
    exact Prog.relates_ite (fun _ => hes') fun _ => Prog.relates_ite (fun _ => hes') fun _ => hes'
  · refine Prog.onlyCalls_ite (fun _ => trivial) fun _ => ?_
    apply Prog.OnlyCalls.bind (onlyCalls_handleTlvInFile _ _)
    intro res
    exact Prog.onlyCalls_ite (fun _ => trivial) fun _ =>
      Prog.onlyCalls_ite (fun _ => trivial) fun _ => trivial

theorem trace_fileScanBody_of_not_enters (s : σ) (h : ¬Enters tlvsEndOff st) :
    (fileScanBody T tlvsEndOff st).trace H s = [] := by
  have htest : ¬sizeT (st.dataOff + ImageTlv.size) ≤ tlvsEndOff := h
  rw [fileScanBody, if_neg htest, Prog.trace_pure]

/-- `it_tlv_tot` of the info header that is read at `off`. -/
def FsFile.itTlvTot (H : FsFile σ) (s : σ) (off : ℕ) : ℕ :=
  (ImageTlvInfo.load (H.read (H.seek s off) ImageTlvInfo.size).bytes).itTlvTot.toNat

/-- `find_tlvs_in_file` seeks to the info header and reads nothing else. -/
theorem trace_findTlvsInFile (magic : UInt16) (off : ℕ) (s : σ) :
    (findTlvsInFile magic off).trace H s = ⟨FsCall.fsSeek off, H.seekRc s off⟩ ::
      if H.seekRc s off ≠ 0 then []
      else [⟨FsCall.fsRead ImageTlvInfo.size, H.read (H.seek s off) ImageTlvInfo.size⟩] := by
  rw [findTlvsInFile, FsFile.trace_fsSeek_bind, Prog.trace_ite, FsFile.trace_fsRead_bind]
  simp only [Prog.trace_ite, Prog.trace_pure, ite_self]

/-- What `find_tlvs_in_file` makes of an info header that it can read. -/
theorem findTlvsInFile_eq_some {magic : UInt16} {off start stop : ℕ} {s s' : σ}
    (h : (findTlvsInFile magic off).run H s = (some (start, stop), s')) :
    H.seekRc s off = 0 ∧ start = sizeT (off + ImageTlvInfo.size) ∧
      stop = sizeT (start + H.itTlvTot s off) := by
  unfold findTlvsInFile at h
  simp only [FsFile.run_fsSeek_bind, FsFile.run_fsRead_bind, Prog.run_ite, Prog.run_pure] at h
  split at h
  · exact absurd (congrArg Prod.fst h) (by simp)
  rename_i hrc
  split at h
  · exact absurd (congrArg Prod.fst h) (by simp)
  split at h
  · exact absurd (congrArg Prod.fst h) (by simp)
  · obtain ⟨hstart, hstop⟩ := Prod.mk.inj (Option.some.inj (congrArg Prod.fst h))
    exact ⟨not_not.mp hrc, hstart.symm, by rw [← hstart]; exact hstop.symm⟩

end

/-! ## Both loops -/

/-- The area is below `2 ^ 31` bytes, is not read outside, and MCUboot accepts no image that reaches
its end. -/
structure FlashBounds {σ : Type} (H : FlashDevice σ) (areaSize : ℕ) : Prop where
  size_lt : areaSize < 2 ^ 31
  read_inside : ∀ s off len, (H.read s off len).rc = 0 → off + len ≤ areaSize
  image_inside : ∀ s, (H.loadHeader s).rc = 0 →
    (H.loadHeader s).hdr.ihHdrSize.toNat + (H.loadHeader s).hdr.ihImgSize.toNat < areaSize

/-- Files cannot be sought to offsets that an `off_t` does not hold. -/
def SeekBounds {σ : Type} (H : FsFile σ) : Prop := ∀ s off, 2 ^ 31 ≤ off → H.seekRc s off ≠ 0

/-- The calls of a scan of an area in front of the loop: the image header is loaded, the sum of
whose sizes is `off`, and the info header there is read, which announces `tot` bytes. -/
def FlashFront (off tot : ℕ) (es : List (Event flashApi)) : Prop :=
  ∃ h a, es = [⟨FlashCall.bootImageLoadHeader, h⟩,
      ⟨FlashCall.flashAreaRead off ImageTlvInfo.size, a⟩] ∧
    off = h.hdr.ihHdrSize.toNat + h.hdr.ihImgSize.toNat ∧
    tot = (ImageTlvInfo.load a.bytes).itTlvTot.toNat

/-- The calls of a scan of a file in front of the loop: the image header is read, the sum of whose
sizes is `off` modulo `2 ^ 32`, and then the info header there, which announces `tot` bytes. -/
def FileFront (off tot : ℕ) (es : List (Event fsApi)) : Prop :=
  ∃ rc a rc' b, es = [⟨FsCall.fsSeek 0, rc⟩, ⟨FsCall.fsRead ImageHeader.size, a⟩,
      ⟨FsCall.fsSeek off, rc'⟩, ⟨FsCall.fsRead ImageTlvInfo.size, b⟩] ∧
    off = (ImageHeader.ofBytes (overlay (List.replicate ImageHeader.size 0) a.bytes)).tlvAreaOff ∧
    tot = (ImageTlvInfo.load b.bytes).itTlvTot.toNat

/-- What a scan should do from the state `s` on. It makes the calls of `front` and refuses the image
at one of them, or it goes on with a loop over the announced bytes, which come behind the info
header without a wrap-around. -/
def ScanBounds {E : Interface} {σ : Type} (scan : Prog E (Option (Bool × FwImageHwRev)))
    (body : ℕ → ScanState → Prog E (ScanState ⊕ (Bool × FwImageHwRev))) (H : Handler E σ)
    (front : ℕ → ℕ → List (Event E) → Prop) (round : ℕ → List (Event E) → Prop)
    (r : FwImageHwRev) (s : σ) : Prop :=
  ∃ off tot es, front off tot es ∧
    ((scan.run H s).1 = some (false, r) ∧ scan.trace H s <+: es ∨
      ∃ tlvsStartOff tlvsEndOff s', tlvsStartOff = off + ImageTlvInfo.size ∧
        tlvsEndOff = tlvsStartOff + tot ∧ tlvsEndOff < 2 ^ 32 ∧
        (scan.run H s).1 =
          ((Prog.loop (body tlvsEndOff) tlvLoopRounds ⟨tlvsStartOff, .zero, r⟩).run H s').1 ∧
        scan.trace H s = es ++
          (Prog.loop (body tlvsEndOff) tlvLoopRounds ⟨tlvsStartOff, .zero, r⟩).trace H s' ∧
        LoopBounds (body tlvsEndOff) H round tlvsEndOff tot tlvLoopRounds
          ⟨tlvsStartOff, .zero, r⟩ s')

theorem ScanBounds.returns {E : Interface} {σ : Type}
    {scan : Prog E (Option (Bool × FwImageHwRev))}
    {body : ℕ → ScanState → Prog E (ScanState ⊕ (Bool × FwImageHwRev))} {H : Handler E σ}
    {front : ℕ → ℕ → List (Event E) → Prop} {round : ℕ → List (Event E) → Prop}
    {r : FwImageHwRev} {s : σ} (h : ScanBounds scan body H front round r s) :
    ∃ res, (scan.run H s).1 = some res := by
  obtain ⟨off, tot, es, -, ⟨hrun, -⟩ | ⟨start, stop, s', -, -, -, hrun, -, hloop⟩⟩ := h
  · exact ⟨_, hrun⟩
  · rw [hrun]
    exact hloop.returns

section

variable {T : RuuviTlvTypes} {σ : Type} {tlvsStartOff tlvsEndOff : ℕ} {s s' : σ}

theorem flash_loopBounds {H : FlashDevice σ} {areaSize : ℕ} (hbounds : FlashBounds H areaSize)
    (r : FwImageHwRev) {off : ℕ}
    (hfind : (findTlvsInFlashArea imageTlvProtInfoMagic off).run H s =
      (some (tlvsStartOff, tlvsEndOff), s')) :
    tlvsStartOff = off + ImageTlvInfo.size ∧ tlvsEndOff = tlvsStartOff + H.itTlvTot s off ∧
      tlvsEndOff < 2 ^ 32 ∧ LoopBounds (flashScanBody T tlvsEndOff) H FlashRound tlvsEndOff
        (H.itTlvTot s off) tlvLoopRounds ⟨tlvsStartOff, .zero, r⟩ s' := by
  obtain ⟨hrc, hstart, hstop⟩ := findTlvsInFlashArea_eq_some hfind
  have hinside := hbounds.read_inside _ _ _ hrc
  have hlt := hbounds.size_lt
  have htot : H.itTlvTot s off < 2 ^ 16 := UInt16.toNat_lt _
  have hsize : ImageTlvInfo.size = 4 := rfl
  have hsize' : ImageTlv.size = 4 := rfl
  rw [sizeT_of_lt (by omega)] at hstart
  rw [sizeT_of_lt (by omega)] at hstop
  have hlow : Low tlvsEndOff := by
    unfold Low
    omega
  refine ⟨hstart, hstop, by omega, loopBounds (fun _ => flashScanBody_ensures) hlow
    (fun _ s => flashRound_trace hlow s) (fun _ s => trace_flashScanBody_of_not_enters s) hstop ?_⟩
  unfold tlvLoopRounds
  rw [hsize']
  omega

theorem file_loopBounds {H : FsFile σ} (hbounds : SeekBounds H) (r : FwImageHwRev) {off : ℕ}
    (hfind : (findTlvsInFile imageTlvProtInfoMagic off).run H s =
      (some (tlvsStartOff, tlvsEndOff), s')) :
    tlvsStartOff = off + ImageTlvInfo.size ∧ tlvsEndOff = tlvsStartOff + H.itTlvTot s off ∧
      tlvsEndOff < 2 ^ 32 ∧ LoopBounds (fileScanBody T tlvsEndOff) H FileRound tlvsEndOff
        (H.itTlvTot s off) tlvLoopRounds ⟨tlvsStartOff, .zero, r⟩ s' := by
  obtain ⟨hrc, hstart, hstop⟩ := findTlvsInFile_eq_some hfind
  have hlt : off < 2 ^ 31 := by
    by_contra hge
    exact hbounds s off (Nat.not_lt.mp hge) hrc
  have htot : H.itTlvTot s off < 2 ^ 16 := UInt16.toNat_lt _
  have hsize : ImageTlvInfo.size = 4 := rfl
  have hsize' : ImageTlv.size = 4 := rfl
  rw [sizeT_of_lt (by omega)] at hstart
  rw [sizeT_of_lt (by omega)] at hstop
  have hlow : Low tlvsEndOff := by
    unfold Low
    omega
  refine ⟨hstart, hstop, by omega, loopBounds (fun _ => fileScanBody_ensures) hlow
    (fun _ s _ => fileRound_trace s) (fun _ s => trace_fileScanBody_of_not_enters s) hstop ?_⟩
  unfold tlvLoopRounds
  rw [hsize']
  omega

/-- The scan of an area. -/
theorem flash_scanBounds {H : FlashDevice σ} {areaSize : ℕ} (hbounds : FlashBounds H areaSize)
    (r : FwImageHwRev) (s : σ) :
    ScanBounds (fwImgHwRevFindInFlashAreaInternal T r) (flashScanBody T) H FlashFront FlashRound r
      s := by
  have hfront : ∀ off, off = (H.loadHeader s).hdr.ihHdrSize.toNat +
      (H.loadHeader s).hdr.ihImgSize.toNat → FlashFront off (H.itTlvTot (H.afterLoadHeader s) off)
        [⟨FlashCall.bootImageLoadHeader, H.loadHeader s⟩,
          ⟨FlashCall.flashAreaRead off ImageTlvInfo.size,
            H.read (H.afterLoadHeader s) off ImageTlvInfo.size⟩] :=
    fun off hoff => ⟨_, _, rfl, hoff, rfl⟩
  unfold fwImgHwRevFindInFlashAreaInternal
  by_cases hrc : (H.loadHeader s).rc ≠ 0
  · refine ⟨_, _, _, hfront _ rfl, .inl ?_⟩
    rw [FlashDevice.run_bootImageLoadHeader_bind, FlashDevice.trace_bootImageLoadHeader_bind,
      if_pos hrc]
    exact ⟨rfl, List.prefix_append [_] [_]⟩
  have himage := hbounds.image_inside s (not_not.mp hrc)
  have hlt := hbounds.size_lt
  have hoff : (H.loadHeader s).hdr.tlvAreaOff =
      (H.loadHeader s).hdr.ihHdrSize.toNat + (H.loadHeader s).hdr.ihImgSize.toNat := by
    rw [ImageHeader.tlvAreaOff, sizeT_of_lt (by omega)]
  refine ⟨_, _, _, hfront _ hoff, ?_⟩
  rw [FlashDevice.run_bootImageLoadHeader_bind, FlashDevice.trace_bootImageLoadHeader_bind,
    if_neg hrc, Prog.run_bind, Prog.trace_bind, trace_findTlvsInFlashArea]
  rcases hfind : (findTlvsInFlashArea imageTlvProtInfoMagic (H.loadHeader s).hdr.tlvAreaOff).run H
    (H.afterLoadHeader s) with ⟨_ | ⟨start, stop⟩, s'⟩
  · exact .inl ⟨rfl, List.prefix_rfl⟩
  · obtain ⟨hstart, hstop, hstoplt, hloop⟩ := flash_loopBounds (T := T) hbounds r hfind
    exact .inr ⟨start, stop, s', hstart, hstop, hstoplt, rfl, rfl, hloop⟩

/-- The scan of a file. -/
theorem file_scanBounds {H : FsFile σ} (hbounds : SeekBounds H) (r : FwImageHwRev) (s : σ) :
    ScanBounds (fwImgHwRevFindInFile T r) (fileScanBody T) H FileFront FileRound r.reset s := by
  let s₁ := H.seek s 0
  let s₂ := H.afterRead s₁ ImageHeader.size
  let imgHdr := ImageHeader.ofBytes
    (overlay (List.replicate ImageHeader.size 0) (H.read s₁ ImageHeader.size).bytes)
  refine ⟨imgHdr.tlvAreaOff, H.itTlvTot s₂ imgHdr.tlvAreaOff, _, ⟨H.seekRc s 0,
    H.read s₁ ImageHeader.size, H.seekRc s₂ imgHdr.tlvAreaOff,
    H.read (H.seek s₂ imgHdr.tlvAreaOff) ImageTlvInfo.size, rfl, rfl, rfl⟩, ?_⟩
  unfold fwImgHwRevFindInFile
  rw [FsFile.run_fsSeek_bind, FsFile.trace_fsSeek_bind]
  by_cases hseek : H.seekRc s 0 ≠ 0
  · rw [if_pos hseek]
    exact .inl ⟨rfl, List.prefix_append [_] _⟩
  rw [if_neg hseek, FsFile.run_fsRead_bind, FsFile.trace_fsRead_bind]
  by_cases hread : (H.read s₁ ImageHeader.size).rc < 0
  · rw [if_pos hread]
    exact .inl ⟨rfl, List.prefix_append [_, _] _⟩
  rw [if_neg hread]
  by_cases hlen : (H.read s₁ ImageHeader.size).rc ≠ ImageHeader.size
  · rw [if_pos hlen]
    exact .inl ⟨rfl, List.prefix_append [_, _] _⟩
  rw [if_neg hlen, findInFileBehindHeader, Prog.run_bind, Prog.trace_bind, trace_findTlvsInFile]
  rcases hfind : (findTlvsInFile imageTlvProtInfoMagic imgHdr.tlvAreaOff).run H s₂ with
    ⟨_ | ⟨start, stop⟩, s'⟩
  · refine .inl ⟨rfl, ?_⟩
    by_cases hrc : H.seekRc s₂ imgHdr.tlvAreaOff ≠ 0
    · rw [if_pos hrc]
      exact List.prefix_append [_, _, _] [_]
    · rw [if_neg hrc]
      exact List.prefix_rfl
  · obtain ⟨hstart, hstop, hstoplt, hloop⟩ := file_loopBounds (T := T) hbounds r.reset hfind
    refine .inr ⟨start, stop, s', hstart, hstop, hstoplt, rfl, ?_, hloop⟩
    rw [if_neg (not_not_intro (findTlvsInFile_eq_some hfind).1)]
    rfl

end

theorem seekBounds_ofBytesBelow (F : List UInt8) : SeekBounds (FsFile.ofBytesBelow F) := by
  intro s off hoff
  show (if off < 2 ^ 31 then (0 : ℤ) else -22) ≠ 0
  rw [if_neg (Nat.not_lt.mpr hoff)]
  decide

/-- A small area that holds an image whose size MCUboot has checked. -/
theorem flashBounds_ofBytes {B : List UInt8} (hlen : B.length < 2 ^ 31)
    (himage : (ImageHeader.ofBytes (slice B 0 ImageHeader.size)).ihHdrSize.toNat +
      (ImageHeader.ofBytes (slice B 0 ImageHeader.size)).ihImgSize.toNat < B.length) :
    FlashBounds (Prog.handler (FlashArea.ofBytes B)) B.length where
  size_lt := hlen
  read_inside s off len hrc := by
    by_contra hout
    exact (FlashArea.holds_ofBytes hlen).read_oob (Nat.not_le.mp hout) hrc
  image_inside _ _ := himage

/-- An image with two TLVs, the second of which claims to be much longer than the region. -/
def overlongImage : List UInt8 := imageWith 16 ([0x50, 0, 2, 0, 9, 9] ++ [0x51, 0, 0xFF, 0xFF])

end FwLoader.Image
