import FieldLink.Proofs.FrameInverse

/-!
# A receiver of frames over any run of calls

Whoever chooses the buffers, a frame is taken only above the watermark, which then is its counter, and a refusal
changes nothing; so the counters of the frames that were taken increase strictly and none is taken twice.
-/

namespace FieldLink.Frame

/-- One call of a receiver: a frame is opened into a text of its own, or in its buffer. -/
inductive Opening where
  | copied (context : SecurityContext) (frame : Octets)
  | inPlace (context : SecurityContext) (buffer : Octets)

namespace Opening

def context : Opening → SecurityContext
  | copied c _ => c
  | inPlace c _ => c

def octets : Opening → Octets
  | copied _ frame => frame
  | inPlace _ buffer => buffer

end Opening

structure Report where
  opening : Opening
  before : UInt64
  result : Except SecurityError Unit
  octets : Octets
  after : UInt64

/-- Makes one call at a watermark. A frame that is copied stays with the caller as it is. -/
def Opening.perform (o : Opening) (watermark : UInt64) : Report :=
  match o with
  | copied c frame =>
    let (result, after) := openText c frame watermark
    ⟨o, watermark, result.map fun _ => (), frame, after⟩
  | inPlace c buffer =>
    let (result, octets, after) := openInPlace c buffer watermark
    ⟨o, watermark, result, octets, after⟩

def receive : List Opening → UInt64 → List Report
  | [], _ => []
  | o :: rest, watermark =>
    let report := o.perform watermark
    report :: receive rest report.after

namespace Report

def counter (r : Report) : UInt64 := counterOf r.opening.octets

def succeeded (r : Report) : Bool :=
  match r.result with
  | .ok _ => true
  | .error _ => false

/-- What one call may do: take a frame above the watermark and move the watermark to its counter, or refuse
it with the one error there is and leave octets and watermark alone. -/
def Safe (r : Report) : Prop :=
  match r.result with
  | .ok _ => r.before < r.counter ∧ r.after = r.counter
  | .error e => e = .invalidResponse ∧ r.octets = r.opening.octets ∧ r.after = r.before

private theorem Safe.before_le_after {r : Report} (h : r.Safe) : r.before ≤ r.after := by
  unfold Safe at h
  split at h
  · rw [h.2]
    exact UInt64.le_of_lt h.1
  · exact UInt64.le_of_eq h.2.2.symm

private theorem Safe.of_succeeded {r : Report} (h : r.Safe) (hok : r.succeeded = true) :
    r.before < r.counter ∧ r.after = r.counter := by
  unfold Safe at h
  unfold succeeded at hok
  split at h
  · exact h
  · simp_all

end Report

theorem Opening.perform_safe {o : Opening} (hkey : o.context.frameKey.isSome)
    (watermark : UInt64) : (o.perform watermark).Safe := by
  obtain ⟨key, hkey⟩ := Option.isSome_iff_exists.1 hkey
  cases o with
  | copied c frame =>
    have hopen := openInPlace_of_key (c := c) hkey frame watermark
    cases hopened : opened? key frame watermark with
    | none => simp [perform, openText, hopen, hopened, Report.Safe, Except.map, octets]
    | some text =>
      have hlt := lt_counterOf_of_isAdmissible (isAdmissible_of_opened? hopened)
      simpa [perform, openText, hopen, hopened, Report.Safe, Except.map, Report.counter, octets] using hlt
  | inPlace c buffer =>
    have hopen := openInPlace_of_key (c := c) hkey buffer watermark
    cases hopened : opened? key buffer watermark with
    | none => simp [perform, hopen, hopened, Report.Safe, octets]
    | some text =>
      have hlt := lt_counterOf_of_isAdmissible (isAdmissible_of_opened? hopened)
      simpa [perform, hopen, hopened, Report.Safe, Report.counter, octets] using hlt

@[simp] theorem Opening.perform_before (o : Opening) (watermark : UInt64) :
    (o.perform watermark).before = watermark := by
  cases o <;> rfl

@[simp] theorem Opening.perform_opening (o : Opening) (watermark : UInt64) :
    (o.perform watermark).opening = o := by
  cases o <;> rfl

theorem receive_opening (os : List Opening) (watermark : UInt64) :
    (receive os watermark).map Report.opening = os := by
  induction os generalizing watermark with
  | nil => rfl
  | cons o os ih => simp [receive, ih]

theorem receive_safe {os : List Opening} (hkey : ∀ o ∈ os, o.context.frameKey.isSome)
    (watermark : UInt64) : ∀ r ∈ receive os watermark, r.Safe := by
  induction os generalizing watermark with
  | nil => simp [receive]
  | cons o os ih =>
    intro r hr
    rcases List.mem_cons.1 hr with rfl | hr
    · exact Opening.perform_safe (hkey o (List.mem_cons_self ..)) watermark
    · exact ih (fun o ho => hkey o (List.mem_cons_of_mem _ ho)) _ r hr

private theorem le_before_of_mem_receive {os : List Opening}
    (hkey : ∀ o ∈ os, o.context.frameKey.isSome) (watermark : UInt64) :
    ∀ r ∈ receive os watermark, watermark ≤ r.before := by
  induction os generalizing watermark with
  | nil => simp [receive]
  | cons o os ih =>
    intro r hr
    have hhead := (Opening.perform_safe (hkey o (List.mem_cons_self ..)) watermark).before_le_after
    rw [Opening.perform_before] at hhead
    rcases List.mem_cons.1 hr with rfl | hr
    · simp
    · have hrest := ih (fun o ho => hkey o (List.mem_cons_of_mem _ ho)) _ r hr
      exact UInt64.le_trans hhead hrest

theorem receive_monotone {os : List Opening} (hkey : ∀ o ∈ os, o.context.frameKey.isSome)
    (watermark : UInt64) :
    (receive os watermark).Pairwise fun r r' => r.after ≤ r'.before := by
  induction os generalizing watermark with
  | nil => exact .nil
  | cons o os ih =>
    have hrest := fun o ho => hkey o (List.mem_cons_of_mem _ ho)
    exact .cons (le_before_of_mem_receive hrest _) (ih hrest _)

def taken (reports : List Report) : List Report := reports.filter Report.succeeded

private theorem taken_counter_pairwise {reports : List Report} (hsafe : ∀ r ∈ reports, r.Safe)
    (hmonotone : reports.Pairwise fun r r' => r.after ≤ r'.before) :
    (taken reports).Pairwise fun r r' => r.counter < r'.counter := by
  have hfilter := hmonotone.filter Report.succeeded
  refine hfilter.imp_of_mem ?_
  intro r r' hr hr' hle
  have hr := List.mem_filter.1 hr
  have hr' := List.mem_filter.1 hr'
  have htaken := (hsafe r hr.1).of_succeeded hr.2
  have htaken' := (hsafe r' hr'.1).of_succeeded hr'.2
  rw [htaken.2] at hle
  exact UInt64.lt_of_le_of_lt hle htaken'.1

/-- What holds of the reports of a run of calls that began at a watermark. -/
structure NeverReplays (os : List Opening) (watermark : UInt64) (reports : List Report) : Prop where
  performed : reports.map Report.opening = os
  safe : ∀ r ∈ reports, r.Safe
  started : ∀ r ∈ reports, watermark ≤ r.before ∧ r.before ≤ r.after
  monotone : reports.Pairwise fun r r' => r.after ≤ r'.before
  increasing : ((taken reports).map Report.counter).Pairwise (· < ·)
  once : ((taken reports).map fun r => r.opening.octets).Nodup

/-- Over any run of calls with encrypting contexts, each call takes a frame above the watermark and moves it
to the counter of the frame, or answers with the one error and changes nothing; so the watermark never falls
and no counter is taken twice. -/
theorem receive_neverReplays (os : List Opening) (watermark : UInt64)
    (hkey : ∀ o ∈ os, o.context.frameKey.isSome) :
    NeverReplays os watermark (receive os watermark) := by
  have hsafe := receive_safe hkey watermark
  have hmonotone := receive_monotone hkey watermark
  have hcounters := taken_counter_pairwise hsafe hmonotone
  refine ⟨receive_opening os watermark, hsafe, ?_, hmonotone, List.pairwise_map.2 hcounters, ?_⟩
  · intro r hr
    exact ⟨le_before_of_mem_receive hkey watermark r hr, (hsafe r hr).before_le_after⟩
  · refine List.pairwise_map.2 (hcounters.imp ?_)
    intro r r' hlt heq
    rw [Report.counter, Report.counter, heq] at hlt
    exact UInt64.lt_irrefl _ hlt

private theorem head_receive_succeeded {c : SecurityContext} {key : Key} {counter watermark : UInt64}
    {vector text : Octets} (hkey : c.frameKey = some key) (hvector : vector.length = vectorLength)
    (htext : text.length ≤ Gcm.maxLength) (hcounter : watermark < counter) (os : List Opening) :
    (receive (.copied c (sealedWith key counter vector text) :: os) watermark).head?.map
      Report.succeeded = some true := by
  have hopened := @opened?_sealedWith key counter watermark vector text hvector htext hcounter
  have hopen := openText_of_key hkey (sealedWith key counter vector text) watermark
  simp only [hopened] at hopen
  simp [receive, Opening.perform, hopen, Except.map, Report.succeeded]

/-- A frame that is handed over twice, and a text that is no frame. -/
theorem receive_neverReplays_repeated :
    let key : Key := ⟨List.replicate 32 0x42, rfl⟩
    let c : SecurityContext := ⟨none, some key, 0, none⟩
    let frame := sealedWith key 7 (List.replicate 12 9) [0x68, 0x69]
    let os : List Opening := [.copied c frame, .inPlace c frame, .inPlace c [1, 0]]
    (∀ o ∈ os, o.context.frameKey.isSome) ∧ NeverReplays os 3 (receive os 3) ∧
      (receive os 3).head?.map Report.succeeded = some true := by
  intro key c frame os
  have hkey : ∀ o ∈ os, o.context.frameKey.isSome := by
    simp [os, c, Opening.context]
  exact ⟨hkey, receive_neverReplays os 3 hkey,
    head_receive_succeeded rfl rfl (by decide) (by decide) _⟩

end FieldLink.Frame
