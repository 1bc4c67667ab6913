import DukeX.Nv2a.Reports

/-!
# Every report is exact

`Tracks` relates the renderer to the counter of the specification: what the queue and the pool still
hold, replayed, is what the counter has issued and not seen written, and the counter itself.
-/

namespace DukeX.Nv2a.Reports

open Lib Finset
open Function (update update_of_ne)

structure Counter where
  enabled : Bool
  count : Nat
  issued : List (Nat × Nat)

def Counter.step (c : Counter) : Op → Counter
  | .setZpassPixelCountEnable enable => { c with enabled := enable }
  | .draw _ _ samples => if c.enabled then { c with count := c.count + samples } else c
  | .clearReportValue => { c with count := 0 }
  | .getReport parameter => { c with issued := c.issued ++ [(parameter, c.count)] }
  | _ => c

def issued (enabled : Bool) (ops : List Op) : List (Nat × Nat) :=
  (ops.foldl Counter.step ⟨enabled, 0, []⟩).issued

def reports (r : RendererState) : List (Nat × Nat) := r.written.map fun w => (w.parameter, w.result)

def value (setup : Setup) (q : Nat × Nat) : Nat × Nat := (q.1, q.2 % 2 ^ 32 / resultDivisor setup)

/-! ## What is still to be written -/

/-- What the queue yields, from `counted` results summed up in `total`, and the total when all `num` results
are in. -/
def replay (pool : Nat → Nat) (num : Nat) : List QueryReport → Nat → Nat → List (Nat × Nat) × Nat
  | [], counted, total => ([], total + ∑ i ∈ Ico counted num, pool i)
  | q :: qs, counted, total =>
    let total := total + ∑ i ∈ Ico counted q.queryCount, pool i
    if q.clear then replay pool num qs q.queryCount 0
    else
      let rest := replay pool num qs q.queryCount total
      ((q.parameter, total) :: rest.1, rest.2)

def InOrder (num : Nat) : List QueryReport → Nat → Prop
  | [], counted => counted ≤ num
  | q :: qs, counted => counted ≤ q.queryCount ∧ InOrder num qs q.queryCount

section Replay

variable {pool pool' : Nat → Nat} {num num' counted total : Nat} {queue : List QueryReport}

theorem InOrder.le (h : InOrder num queue counted) : counted ≤ num := by
  induction queue generalizing counted with
  | nil => exact h
  | cons q qs ih => exact h.1.trans (ih h.2)

theorem InOrder.mono (hle : num ≤ num') (h : InOrder num queue counted) :
    InOrder num' queue counted := by
  induction queue generalizing counted with
  | nil => exact Nat.le_trans h hle
  | cons q qs ih => exact ⟨h.1, ih h.2⟩

section

variable (h : InOrder num queue counted)

include h

theorem InOrder.append (clear : Bool) (parameter : Nat) :
    InOrder num (queue ++ [⟨clear, parameter, num⟩]) counted := by
  induction queue generalizing counted with
  | nil => exact ⟨h, Nat.le_refl num⟩
  | cons q qs ih => exact ⟨h.1, ih h.2⟩

theorem replay_split (hle : num ≤ num') :
    replay pool num' queue counted total =
      ((replay pool num queue counted total).1,
        (replay pool num queue counted total).2 + ∑ i ∈ Ico num num', pool i) := by
  induction queue generalizing counted total with
  | nil => simp only [replay, Nat.add_assoc, sum_Ico_consecutive pool h hle]
  | cons q qs ih =>
    unfold replay
    dsimp only
    split
    · exact ih h.2
    · rw [ih h.2]

theorem replay_succ :
    replay pool (num + 1) queue counted total =
      ((replay pool num queue counted total).1,
        (replay pool num queue counted total).2 + pool num) := by
  rw [replay_split h (Nat.le_succ num)]
  simp

theorem replay_congr (hpool : ∀ i < num, pool i = pool' i) :
    replay pool num queue counted total = replay pool' num queue counted total := by
  have hsum : ∀ a b, b ≤ num → ∑ i ∈ Ico a b, pool i = ∑ i ∈ Ico a b, pool' i :=
    fun a b hb => sum_congr rfl fun i hi => hpool i ((mem_Ico.mp hi).2.trans_le hb)
  induction queue generalizing counted total with
  | nil => simp only [replay, hsum counted num (Nat.le_refl num)]
  | cons q qs ih => simp only [replay, hsum counted q.queryCount h.2.le, ih h.2]

theorem replay_append_clear (parameter : Nat) :
    replay pool num (queue ++ [⟨true, parameter, num⟩]) counted total =
      ((replay pool num queue counted total).1, 0) := by
  induction queue generalizing counted total with
  | nil => simp [replay]
  | cons q qs ih =>
    simp only [List.cons_append, replay]
    split
    · exact ih h.2
    · rw [ih h.2]

theorem replay_append_get (parameter : Nat) :
    replay pool num (queue ++ [⟨false, parameter, num⟩]) counted total =
      ((replay pool num queue counted total).1 ++
        [(parameter, (replay pool num queue counted total).2)],
        (replay pool num queue counted total).2) := by
  induction queue generalizing counted total with
  | nil => simp [replay]
  | cons q qs ih =>
    simp only [List.cons_append, replay]
    split
    · exact ih h.2
    · rw [ih h.2]
      rfl

end

end Replay

/-! ## The relation -/

structure Tracks (setup : Setup) (c : Counter) (r : RendererState) : Prop where
  enabled : r.zpassPixelCountEnable = c.enabled
  pass : r.inRenderPass = true → r.inCommandBuffer = true
  flight : r.queryInFlight = true → r.inCommandBuffer = true ∧ 0 < r.numQueriesInFlight
  active : r.activeQuery = if r.queryInFlight then some (r.numQueriesInFlight - 1) else none
  order : InOrder r.numQueriesInFlight r.reportQueue 0
  /-- The query in flight is younger than every report unless a new one is asked for. -/
  fresh : r.queryInFlight = true → r.newQueryNeeded = false →
    InOrder (r.numQueriesInFlight - 1) r.reportQueue 0
  owed : ∃ total delivered,
    r.zpassPixelCountResult = total % 2 ^ 32 ∧
    reports r = delivered.map (value setup) ∧
    c.issued = delivered ++ (replay r.queryPool r.numQueriesInFlight r.reportQueue 0 total).1 ∧
    c.count = (replay r.queryPool r.numQueriesInFlight r.reportQueue 0 total).2

/-- An operation failed for a reason outside the renderer's state, with reports written that were asked
for. -/
def Faulted (setup : Setup) (asked : List (Nat × Nat)) (e : Failure) (r : RendererState) : Prop :=
  e ≠ .assertion ∧ reports r <+: asked.map (value setup)

section Steps

variable {setup : Setup} {c : Counter} {r : RendererState}

theorem Tracks.reports (h : Tracks setup c r) : reports r <+: c.issued.map (value setup) := by
  obtain ⟨total, delivered, -, hreports, hissued, -⟩ := h.owed
  simp_all

variable {e : Failure} {results : Nat → Nat} {asked : List (Nat × Nat)}

@[simp] theorem wp_check {b : Bool} {Q : Unit → RendererState → Prop}
    {E : Failure → RendererState → Prop} : wp (check b e) Q E r ↔ if b then Q () r else E e r := by
  cases b <;> exact Iff.rfl

variable {Q : Unit → RendererState → Prop} {E : Failure → RendererState → Prop}

theorem wp_onlyIf {b : Bool} {m : Vk Unit} :
    wp (onlyIf b m) Q E r ↔ if b then wp m Q E r else Q () r := by
  cases b <;> exact Iff.rfl

theorem wp_endRenderPass : wp endRenderPass Q E r ↔ Q () { r with inRenderPass := false } := by
  rw [endRenderPass, wp_modify]
  cases hpass : r.inRenderPass with
  | true => exact Iff.rfl
  | false =>
    have hr : { r with inRenderPass := false } = r := by rw [← hpass]
    rw [if_neg Bool.false_ne_true, hr]

theorem wp_endQuery (hbuffer : r.inCommandBuffer = true) (hpass : r.inRenderPass = false)
    (hflight : r.queryInFlight = true) :
    wp endQuery Q E r ↔ Q () { r with activeQuery := none, queryInFlight := false } := by
  simp [endQuery, vkCmdEndQuery, wp_bind, hbuffer, hpass, hflight]

def closed (r : RendererState) : RendererState :=
  { r with inRenderPass := false, activeQuery := none, queryInFlight := false }

section

variable (h : Tracks setup c r)

include h

theorem Tracks.endRenderPass : Tracks setup c { r with inRenderPass := false } :=
  { h with pass := fun hpass => by cases hpass }

theorem Tracks.closed : Tracks setup c (closed r) :=
  { h with
    pass := fun hpass => by cases hpass
    flight := fun hflight => by cases hflight
    active := rfl
    fresh := fun hflight => by cases hflight }

theorem wp_endPass_endQuery (hflight : r.queryInFlight = true) :
    wp (do endRenderPass; endQuery) Q E r ↔ Q () (closed r) := by
  rw [wp_bind, wp_endRenderPass]
  exact wp_endQuery (h.flight hflight).1 rfl hflight

theorem wp_ensureNotInRenderPass :
    wp ensureNotInRenderPass Q E r ↔ Q () (closed r) := by
  rw [ensureNotInRenderPass, wp_bind, wp_endRenderPass, wp_bind, wp_get, wp_onlyIf]
  split
  · rename_i hflight
    exact wp_endQuery (h.flight hflight).1 rfl hflight
  · rename_i hflight
    have hactive := h.active
    rw [if_neg hflight] at hactive
    have hr : { r with inRenderPass := false } = Reports.closed r := by
      rw [Reports.closed, ← hactive, ← Bool.eq_false_of_not_eq_true hflight]
    rw [← hr]

theorem wp_submitCommandBuffer :
    wp submitCommandBuffer Q E r ↔ Q () { closed r with inCommandBuffer := false } := by
  have hsubmit : submitCommandBuffer =
      (do ensureNotInRenderPass; modify fun r => { r with inCommandBuffer := false }) := rfl
  rw [hsubmit, wp_bind, wp_ensureNotInRenderPass h]
  exact Iff.rfl

theorem Tracks.submitted :
    Tracks setup c { Reports.closed r with inCommandBuffer := false } :=
  { h.closed with
    pass := fun hpass => by cases hpass
    flight := fun hflight => by cases hflight }

end

theorem foldl_addResults (results : Nat → Nat) (total start n : Nat) :
    (List.range' start n).foldl (fun total i => (total + results i) % 2 ^ 32) (total % 2 ^ 32) =
      (total + ∑ i ∈ Ico start (start + n), results i) % 2 ^ 32 := by
  induction n generalizing total start with
  | zero => simp
  | succ n ih =>
    rw [List.range'_succ, List.foldl_cons, Nat.mod_add_mod, ih,
      sum_eq_sum_Ico_succ_bot (by omega : start < start + (n + 1)), Nat.add_assoc, Nat.add_comm n 1,
      Nat.add_assoc start 1 n]

theorem wp_addResults {counted stop total : Nat} (hle : counted ≤ stop)
    (htotal : r.zpassPixelCountResult = total % 2 ^ 32) :
    wp (addResults results counted stop) Q E r ↔
      Q () { r with
        zpassPixelCountResult := (total + ∑ i ∈ Ico counted stop, results i) % 2 ^ 32 } := by
  rw [addResults, wp_modify, htotal, foldl_addResults, Nat.add_sub_cancel' hle]

theorem wp_writeZpassPixelCntReport {parameter result : Nat}
    (hQ : Q () { r with written := r.written ++ [⟨r.dmaReport, parameter, result⟩] })
    (hasked : reports r <+: asked.map (value setup)) :
    wp (writeZpassPixelCntReport setup parameter result) Q (Faulted setup asked) r := by
  rw [writeZpassPixelCntReport, wp_bind, wp_get, wp_bind, wp_check]
  split
  · exact hQ
  · exact ⟨by simp, hasked⟩

theorem wp_processReports {queue : List QueryReport} {num counted total : Nat}
    {delivered : List (Nat × Nat)}
    (hqueue : r.reportQueue = queue) (hnum : r.numQueriesInFlight = num)
    (horder : InOrder num queue counted) (htotal : r.zpassPixelCountResult = total % 2 ^ 32)
    (hreports : reports r = delivered.map (value setup))
    (hasked : asked = delivered ++ (replay results num queue counted total).1) :
    wp (processReports setup results queue counted)
      (fun counted' r' => counted' ≤ num ∧ ∃ total' written',
        r' = { r with
          zpassPixelCountResult := total' % 2 ^ 32, reportQueue := [], written := written' } ∧
        total' + ∑ i ∈ Ico counted' num, results i = (replay results num queue counted total).2 ∧
        reports r' = asked.map (value setup))
      (Faulted setup asked) r := by
  induction queue generalizing r counted total delivered with
  | nil =>
    refine ⟨horder, total, r.written, ?_, rfl, ?_⟩
    · rw [← htotal, ← hqueue]
    · rw [hreports, hasked]
      simp [replay]
  | cons q qs ih =>
    obtain ⟨hle, horder⟩ := horder
    have hnumber : q.queryCount ≤ r.numQueriesInFlight := hnum ▸ horder.le
    unfold processReports
    rw [wp_bind, wp_get, wp_bind, wp_check, if_pos (decide_eq_true hle), wp_bind, wp_check,
      if_pos (decide_eq_true hnumber), wp_bind, wp_addResults hle htotal, wp_bind,
        settleReport, wp_bind,
      wp_get]
    have hasked' : reports r <+: asked.map (value setup) := by
      simp [hreports, hasked]
    cases hclear : q.clear with
    | true =>
      simp only [replay, hclear, if_true] at hasked ⊢
      exact ih rfl hnum horder rfl hreports hasked
    | false =>
      simp only [replay, hclear, if_false, Bool.false_eq_true] at hasked ⊢
      refine wp_writeZpassPixelCntReport ?_ hasked'
      refine @ih _ _ _
        (delivered ++ [(q.parameter, total + ∑ i ∈ Ico counted q.queryCount, results i)])
        rfl hnum horder rfl ?_ ?_
      · rw [List.map_append, ← hreports]
        exact List.map_append
      · rw [hasked, List.append_assoc]
        rfl

theorem wp_processPendingReportsInternal (h : Tracks setup c r)
    (hbuffer : r.inCommandBuffer = false) :
    wp (processPendingReportsInternal setup)
      (fun _ r' => Tracks setup c r' ∧ reports r' = c.issued.map (value setup) ∧
        r'.reportQueue = [] ∧ r'.inDraw = r.inDraw ∧ r'.clearing = r.clearing)
      (Faulted setup c.issued) r := by
  obtain ⟨total, delivered, htotal, hreports, hissued, hcount⟩ := h.owed
  rw [processPendingReportsInternal, wp_bind, wp_get, wp_bind, wp_check, hbuffer]
  refine wp_seq (wp_processReports rfl rfl h.order htotal hreports hissued) ?_ fun _ _ h => h
  rintro counted r' ⟨hle, total', written', rfl, hsum, hreports'⟩
  rw [wp_bind]
  refine (wp_addResults hle rfl).mpr ?_
  have hflight : r.queryInFlight = false := by
    refine Bool.eq_false_of_not_eq_true fun hflight => ?_
    rw [(h.flight hflight).1] at hbuffer
    cases hbuffer
  have hactive := h.active
  rw [hflight] at hactive
  refine ⟨⟨h.enabled, h.pass, ?_, ?_, Nat.le_refl 0, ?_, total' + _, c.issued, rfl,
    hreports', ?_, ?_⟩,
    hreports', rfl, rfl, rfl⟩
  · intro h'
    cases hflight.symm.trans h'
  · exact hactive.trans (if_neg (by simp [hflight])).symm
  · intro h'
    cases hflight.symm.trans h'
  · simp [replay]
  · rw [hcount, ← hsum]
    simp [replay]

theorem wp_finish (h : Tracks setup c r) (hdraw : r.inDraw = false) :
    wp (finish setup)
      (fun _ r' => Tracks setup c r' ∧ reports r' = c.issued.map (value setup) ∧
        r'.reportQueue = [] ∧ r'.inDraw = r.inDraw ∧ r'.clearing = r.clearing)
      (Faulted setup c.issued) r := by
  have hcheck : (!r.inDraw) = true := by rw [hdraw]; rfl
  rw [finish, wp_bind, wp_get, wp_bind, wp_check, if_pos hcheck, wp_bind, wp_onlyIf]
  cases hbuffer : r.inCommandBuffer with
  | true =>
    refine (wp_submitCommandBuffer h).mpr ?_
    exact wp_processPendingReportsInternal h.submitted rfl
  | false => exact wp_processPendingReportsInternal h hbuffer

/-! ### Draws -/

structure Idle (setup : Setup) (c : Counter) (r : RendererState) : Prop where
  tracks : Tracks setup c r
  inDraw : r.inDraw = false
  clearing : r.clearing = false

theorem wp_processPendingReports (h : Idle setup c r) (dmaGet dmaPut : Nat) :
    wp (processPendingReports setup dmaGet dmaPut) (fun _ r' => Idle setup c r')
      (Faulted setup c.issued) r := by
  rw [processPendingReports, wp_bind, wp_get, wp_onlyIf]
  split
  · refine wp_mono (wp_finish h.tracks h.inDraw) ?_ fun _ _ hE => hE
    rintro _ r' ⟨htracks, _, _, hdraw, hclearing⟩
    exact ⟨htracks, hdraw.trans h.inDraw, hclearing.trans h.clearing⟩
  · exact h

theorem Tracks.ensureCommandBuffer (h : Tracks setup c r) :
    Tracks setup c { r with inCommandBuffer := true } :=
  { h with
    pass := fun _ => rfl
    flight := fun hflight => ⟨rfl, (h.flight hflight).2⟩ }

theorem wp_ensureCommandBuffer :
    wp ensureCommandBuffer Q E r ↔ Q () { r with inCommandBuffer := true } := by
  rw [Reports.ensureCommandBuffer, wp_modify]
  split
  · rename_i hbuffer
    rw [← hbuffer]
  · exact Iff.rfl

theorem wp_beginPreDraw (h : Tracks setup c r) (hdraw : r.inDraw = false) (dirty full : Bool) :
    wp (beginPreDraw setup dirty full)
      (fun _ r' => Tracks setup c r' ∧ r'.inCommandBuffer = true ∧ r'.clearing = r.clearing)
      (Faulted setup c.issued) r := by
  -- whether or not the pass is closed first
  have hclosed : ∀ r1, Tracks setup c r1 → r1.inDraw = false → r1.clearing = r.clearing →
      wp (do let r ← get; onlyIf (!r.clearing && full) (finish setup); ensureCommandBuffer)
        (fun _ r' => Tracks setup c r' ∧ r'.inCommandBuffer = true ∧ r'.clearing = r.clearing)
        (Faulted setup c.issued) r1 := by
    intro r1 h1 hdraw1 hclearing1
    rw [wp_bind, wp_get, wp_bind, wp_onlyIf]
    split
    · refine wp_mono (wp_finish h1 hdraw1) ?_ fun _ _ hE => hE
      rintro _ r2 ⟨h2, _, _, _, hclearing2⟩
      exact wp_ensureCommandBuffer.mpr ⟨h2.ensureCommandBuffer, rfl, hclearing2.trans hclearing1⟩
    · exact wp_ensureCommandBuffer.mpr ⟨h1.ensureCommandBuffer, rfl, hclearing1⟩
  rw [beginPreDraw, wp_bind, wp_onlyIf]
  split
  · exact (wp_ensureNotInRenderPass h).mpr (hclosed _ h.closed hdraw rfl)
  · exact hclosed _ h hdraw rfl

theorem Tracks.beginQuery (h : Tracks setup c r) (hbuffer : r.inCommandBuffer = true) :
    Tracks setup c { r with
      queryPool := update r.queryPool r.numQueriesInFlight 0
      activeQuery := some r.numQueriesInFlight
      queryInFlight := true
      newQueryNeeded := false
      numQueriesInFlight := r.numQueriesInFlight + 1 } := by
  obtain ⟨total, delivered, htotal, hreports, hissued, hcount⟩ := h.owed
  have hpool : ∀ i < r.numQueriesInFlight,
      r.queryPool i = update r.queryPool r.numQueriesInFlight 0 i :=
    fun i hi => (update_of_ne (Nat.ne_of_lt hi) 0 r.queryPool).symm
  have hreplay : replay (update r.queryPool r.numQueriesInFlight 0) (r.numQueriesInFlight + 1)
      r.reportQueue 0 total = replay r.queryPool r.numQueriesInFlight r.reportQueue 0 total := by
    rw [replay_succ h.order, ← replay_congr h.order hpool]
    simp
  exact {
    enabled := h.enabled
    pass := h.pass
    flight := fun _ => ⟨hbuffer, Nat.succ_pos _⟩
    active := rfl
    order := h.order.mono (Nat.le_succ _)
    fresh := fun _ _ => h.order
    owed := ⟨total, delivered, htotal, hreports, hreplay ▸ hissued, hreplay ▸ hcount⟩ }

theorem wp_beginQuery (hbuffer : r.inCommandBuffer = true)
    (hpass : r.inRenderPass = false) (hflight : r.queryInFlight = false)
    (hasked : reports r <+: asked.map (value setup))
    (hQ : Q () { r with
      queryPool := update r.queryPool r.numQueriesInFlight 0
      activeQuery := some r.numQueriesInFlight
      queryInFlight := true
      newQueryNeeded := false
      numQueriesInFlight := r.numQueriesInFlight + 1 }) :
    wp beginQuery Q (Faulted setup asked) r := by
  rw [beginQuery, wp_bind, wp_get, hbuffer, hpass, hflight]
  simp only [vkCmdResetQueryPool, vkCmdBeginQuery, wp_bind, wp_check, wp_modify,
    Bool.not_false, if_true]
  split
  · exact hQ
  · exact ⟨by simp, hasked⟩

def counts (r : RendererState) : Bool := !r.clearing && r.zpassPixelCountEnable

theorem wp_beginDrawQuery (h : Tracks setup c r) (hbuffer : r.inCommandBuffer = true) :
    wp beginDrawQuery
      (fun _ r' => Tracks setup c r' ∧ r'.inCommandBuffer = true ∧ r'.clearing = r.clearing ∧
        r'.queryInFlight = counts r ∧ (counts r = true → r'.newQueryNeeded = false))
      (Faulted setup c.issued) r := by
  -- with no query in flight one is begun
  have hbegin : ∀ r1, Tracks setup c r1 → r1.inCommandBuffer = true → r1.clearing = r.clearing →
      r1.queryInFlight = false →
      wp (do endRenderPass; beginQuery)
        (fun _ r' => Tracks setup c r' ∧ r'.inCommandBuffer = true ∧ r'.clearing = r.clearing ∧
          r'.queryInFlight = true ∧ r'.newQueryNeeded = false)
        (Faulted setup c.issued) r1 := by
    intro r1 h1 hbuffer1 hclearing1 hflight1
    rw [wp_bind, wp_endRenderPass]
    exact wp_beginQuery hbuffer1 rfl hflight1 h1.reports
      ⟨h1.endRenderPass.beginQuery hbuffer1, hbuffer1, hclearing1, rfl, rfl⟩
  change wp (if counts r = true then _ else _) _ _ r
  cases hcounts : counts r with
  | true =>
    rw [if_pos rfl, wp_bind, wp_onlyIf]
    simp only [forall_const]
    split
    · rename_i hneeded
      rw [wp_endPass_endQuery h (Bool.and_eq_true_iff.mp hneeded).2, wp_bind, wp_get, wp_onlyIf]
      exact hbegin _ h.closed hbuffer rfl rfl
    · rename_i hneeded
      rw [wp_bind, wp_get, wp_onlyIf]
      split
      · simp_all
      · simp_all
  | false =>
    rw [if_neg Bool.false_ne_true, wp_onlyIf]
    split
    · rename_i hflight
      rw [wp_endPass_endQuery h hflight]
      exact ⟨h.closed, hbuffer, rfl, rfl, by simp⟩
    · simp_all

theorem Tracks.openPass (h : Tracks setup c r) (hbuffer : r.inCommandBuffer = true) :
    Tracks setup c { r with inRenderPass := true, inDraw := true } :=
  { h with pass := fun _ => hbuffer }

theorem wp_openPass (hbuffer : r.inCommandBuffer = true) :
    wp (do
        let r ← get
        onlyIf (!r.inRenderPass) beginRenderPass
        modify fun r => { r with inDraw := true }) Q E r ↔
      Q () { r with inRenderPass := true, inDraw := true } := by
  rw [wp_bind, wp_get, wp_bind, wp_onlyIf]
  cases hpass : r.inRenderPass with
  | true =>
    simp_all
  | false => simp [beginRenderPass, wp_bind, hbuffer, hpass]

section

variable (h : Tracks setup c r)

include h

theorem wp_beginDraw (hbuffer : r.inCommandBuffer = true) :
    wp beginDraw
      (fun _ r' => Tracks setup c r' ∧ r'.inCommandBuffer = true ∧ r'.inRenderPass = true ∧
        r'.clearing = r.clearing ∧ r'.queryInFlight = counts r ∧
        (counts r = true → r'.newQueryNeeded = false))
      (Faulted setup c.issued) r := by
  rw [beginDraw, wp_bind, wp_get, wp_bind, wp_check, if_pos hbuffer, wp_bind]
  refine wp_mono (wp_beginDrawQuery h hbuffer) ?_ fun _ _ hE => hE
  rintro _ r1 ⟨h1, hbuffer1, hclearing1, hflight1, hneeded1⟩
  rw [wp_bind, wp_onlyIf]
  split
  · rw [wp_endRenderPass]
    refine (wp_openPass (by exact hbuffer1)).mpr ?_
    exact ⟨h1.endRenderPass.openPass hbuffer1, hbuffer1, rfl, hclearing1, hflight1, hneeded1⟩
  · rw [wp_openPass hbuffer1]
    exact ⟨h1.openPass hbuffer1, hbuffer1, rfl, hclearing1, hflight1, hneeded1⟩

theorem Tracks.drawn (hflight : r.queryInFlight = true)
    (hneeded : r.newQueryNeeded = false) (samples : Nat) :
    Tracks setup { c with count := c.count + samples } { r with
      queryPool := update r.queryPool (r.numQueriesInFlight - 1)
        (r.queryPool (r.numQueriesInFlight - 1) + samples) } := by
  obtain ⟨total, delivered, htotal, hreports, hissued, hcount⟩ := h.owed
  have hold := h.fresh hflight hneeded
  obtain ⟨k, hk⟩ := Nat.exists_eq_succ_of_ne_zero (h.flight hflight).2.ne'
  rw [hk, Nat.succ_sub_one] at hold
  have hpool : ∀ i < k, r.queryPool i =
      update r.queryPool k (r.queryPool k + samples) i :=
    fun i hi => (update_of_ne (Nat.ne_of_lt hi) _ r.queryPool).symm
  -- the last slot of the pool counts for no report in the queue
  have hreplay : replay (update r.queryPool k (r.queryPool k + samples)) (k + 1) r.reportQueue 0
      total = ((replay r.queryPool (k + 1) r.reportQueue 0 total).1,
        (replay r.queryPool (k + 1) r.reportQueue 0 total).2 + samples) := by
    rw [replay_succ hold, ← replay_congr hold hpool, replay_succ hold, Function.update_self,
      Nat.add_assoc]
  rw [hk] at hissued hcount
  refine { h with owed := ⟨total, delivered, htotal, hreports, ?_, ?_⟩ }
  · rw [hk, Nat.succ_sub_one, hreplay]
    exact hissued
  · rw [hk, Nat.succ_sub_one, hreplay, ← hcount]

theorem wp_vkCmdDraw (hneeded : r.queryInFlight = true → r.newQueryNeeded = false) (samples : Nat) :
    wp (vkCmdDraw samples)
      (fun _ r' => Tracks setup
        { c with count := if r.queryInFlight then c.count + samples else c.count } r' ∧
        r'.inCommandBuffer = r.inCommandBuffer ∧ r'.inRenderPass = r.inRenderPass ∧
        r'.clearing = r.clearing) E r := by
  have hactive := h.active
  rw [vkCmdDraw, wp_modify]
  by_cases hflight : r.queryInFlight = true
  · have hdrawn := h.drawn hflight (hneeded hflight) samples
    simp_all
  · simp_all

theorem wp_endDraw (hbuffer : r.inCommandBuffer = true)
    (hpass : r.inRenderPass = true) :
    wp endDraw (fun _ r' => Tracks setup c r' ∧ r'.inDraw = false ∧ r'.clearing =
      r.clearing) E r := by
  rw [endDraw, wp_bind, wp_get, wp_bind, wp_check, if_pos hbuffer, wp_bind, wp_check, if_pos hpass,
    wp_bind, wp_onlyIf]
  split
  · rw [wp_endRenderPass]
    exact ⟨{ h.endRenderPass with }, rfl, rfl⟩
  · exact ⟨{ h with }, rfl, rfl⟩

theorem wp_recordDraw (hdraw : r.inDraw = false) (dirty full : Bool)
    (samples : Nat) :
    wp (recordDraw setup dirty full samples)
      (fun _ r' => Tracks setup
        { c with count := if !r.clearing && c.enabled then c.count + samples else c.count } r' ∧
        r'.inDraw = false ∧ r'.clearing = r.clearing)
      (Faulted setup c.issued) r := by
  refine wp_seq (wp_beginPreDraw h hdraw dirty full) ?_ fun _ _ hE => hE
  rintro _ r1 ⟨h1, hbuffer1, hclearing1⟩
  refine wp_seq (wp_beginDraw h1 hbuffer1) ?_ fun _ _ hE => hE
  rintro _ r2 ⟨h2, hbuffer2, hpass2, hclearing2, hflight2, hneeded2⟩
  refine wp_seq (wp_vkCmdDraw h2 (fun hflight => hneeded2 (hflight2 ▸ hflight)) samples) ?_
    fun _ _ hE => hE
  rintro _ r3 ⟨h3, hbuffer3, hpass3, hclearing3⟩
  rw [hflight2, counts, hclearing1, h1.enabled] at h3
  refine wp_mono (wp_endDraw h3 (hbuffer3.trans hbuffer2) (hpass3.trans hpass2)) ?_ fun _ _ hE => hE
  simp_all

theorem Tracks.clearReportValue :
    Tracks setup { c with count := 0 } { r with
      reportQueue := r.reportQueue ++ [⟨true, 0, r.numQueriesInFlight⟩], newQueryNeeded :=
        true } := by
  obtain ⟨total, delivered, htotal, hreports, hissued, hcount⟩ := h.owed
  refine { h with
    order := h.order.append true 0
    fresh := fun _ hneeded => by cases hneeded
    owed := ⟨total, delivered, htotal, hreports, ?_, ?_⟩ }
  · rw [replay_append_clear h.order]
    exact hissued
  · rw [replay_append_clear h.order]

theorem Tracks.getReport (parameter : Nat) :
    Tracks setup { c with issued := c.issued ++ [(parameter, c.count)] } { r with
      reportQueue := r.reportQueue ++ [⟨false, parameter, r.numQueriesInFlight⟩]
      newQueryNeeded := true } := by
  obtain ⟨total, delivered, htotal, hreports, hissued, hcount⟩ := h.owed
  refine { h with
    order := h.order.append false parameter
    fresh := fun _ hneeded => by cases hneeded
    owed := ⟨total, delivered, htotal, hreports, ?_, ?_⟩ }
  · rw [replay_append_get h.order, hissued, hcount, List.append_assoc]
  · rw [replay_append_get h.order]
    exact hcount

theorem Tracks.setClearing (clearing : Bool) :
    Tracks setup c { r with clearing } :=
  { h with }

end

theorem wp_op (h : Idle setup c r) (op : Op) :
    wp (op.run setup) (fun _ r' => Idle setup (c.step op) r') (Faulted setup c.issued) r := by
  cases op with
  | setContextDmaReport dma dmaGet dmaPut =>
    refine wp_seq (wp_processPendingReports h dmaGet dmaPut) ?_ fun _ _ hE => hE
    intro _ r' h'
    exact ⟨{ h'.tracks with }, h'.inDraw, h'.clearing⟩
  | setZpassPixelCountEnable enable =>
    exact ⟨{ h.tracks with enabled := rfl }, h.inDraw, h.clearing⟩
  | draw dirty full samples =>
    refine wp_mono (wp_recordDraw h.tracks h.inDraw dirty full samples) ?_ fun _ _ hE => hE
    rintro _ r' ⟨h', hdraw, hclearing⟩
    refine ⟨?_, hdraw, hclearing.trans h.clearing⟩
    rw [h.clearing, Bool.not_false, Bool.true_and] at h'
    simp only [Counter.step]
    split
    · rename_i henabled
      exact (if_pos henabled ▸ h' :)
    · rename_i henabled
      exact (if_neg henabled ▸ h' :)
  | clearSurface dirty samples =>
    refine wp_bind.mpr (wp_modify.mpr ?_)
    refine wp_seq
      (wp_recordDraw (@Tracks.setClearing _ _ _ h.tracks true) h.inDraw dirty false samples) ?_
      fun _ _ hE => hE
    rintro _ r' ⟨h', hdraw, _⟩
    exact ⟨h'.setClearing false, hdraw, rfl⟩
  | clearReportValue => exact ⟨h.tracks.clearReportValue, h.inDraw, h.clearing⟩
  | getReport parameter =>
    refine wp_bind.mpr (wp_check.mpr ?_)
    split
    · exact ⟨h.tracks.getReport parameter, h.inDraw, h.clearing⟩
    · exact ⟨by simp, h.tracks.reports⟩
  | processPendingReports dmaGet dmaPut => exact wp_processPendingReports h dmaGet dmaPut
  | ensureNotInRenderPass =>
    exact (wp_ensureNotInRenderPass h.tracks).mpr ⟨h.tracks.closed, h.inDraw, h.clearing⟩
  | finish =>
    refine wp_mono (wp_finish h.tracks h.inDraw) ?_ fun _ _ hE => hE
    rintro _ r' ⟨htracks, _, _, hdraw, hclearing⟩
    exact ⟨htracks, hdraw.trans h.inDraw, hclearing.trans h.clearing⟩

theorem Counter.step_issued (c : Counter) (op : Op) : c.issued <+: (c.step op).issued := by
  cases op with
  | draw dirty full samples =>
    grind [Counter.step]
  | getReport parameter => exact List.prefix_append _ _
  | _ => exact List.prefix_rfl

theorem Counter.foldl_issued (c : Counter) (ops : List Op) :
    c.issued <+: (ops.foldl Counter.step c).issued := by
  induction ops generalizing c with
  | nil => exact List.prefix_rfl
  | cons op ops ih => exact (c.step_issued op).trans (ih (c.step op))

theorem Faulted.mono {asked asked' : List (Nat × Nat)} (h : Faulted setup asked e r)
    (hasked : asked <+: asked') : Faulted setup asked' e r :=
  ⟨h.1, h.2.trans (hasked.map _)⟩

theorem wp_run (h : Idle setup c r) (ops : List Op) :
    wp (run setup ops) (fun _ r' => Idle setup (ops.foldl Counter.step c) r')
      (Faulted setup (ops.foldl Counter.step c).issued) r := by
  induction ops generalizing c r with
  | nil => exact h
  | cons op ops ih =>
    refine wp_seq (wp_op h op) ?_ ?_
    · intro _ r' h'
      exact ih h'
    · intro e r' hE
      exact hE.mono ((c.step_issued op).trans ((c.step op).foldl_issued ops))

theorem idle_initReports (dmaReport : Nat) (enabled : Bool) :
    Idle setup ⟨enabled, 0, []⟩ (initReports dmaReport enabled) where
  tracks := {
    enabled := rfl
    pass := fun h => by cases h
    flight := fun h => by cases h
    active := rfl
    order := Nat.le_refl 0
    fresh := fun h => by cases h
    owed := ⟨0, [], rfl, rfl, rfl, by simp [replay, initReports]⟩ }
  inDraw := rfl
  clearing := rfl

end Steps

theorem value_eq {setup : Setup} (hscale : setup.surfaceScaleFactor ^ 2 < 2 ^ 32) {q : Nat × Nat}
    (hq : q.2 < 2 ^ 32) : value setup q = (q.1, q.2 / setup.surfaceScaleFactor ^ 2) := by
  rw [value, resultDivisor, Nat.mod_eq_of_lt hq, ← Nat.pow_two, Nat.mod_eq_of_lt hscale]

/-- In every run, whatever ends it, the reports written are the first ones asked for, in order, each
once and with the samples counted for it; a flush leaves none out. -/
theorem reports_exact (setup : Setup)
    (hscale : setup.surfaceScaleFactor ^ 2 < 2 ^ 32) (dmaReport : Nat) (enabled : Bool)
      (ops : List Op)
    (hcount : ∀ q ∈ issued enabled ops, q.2 < 2 ^ 32) :
    (reports (endState (run setup ops) (initReports dmaReport enabled)) <+:
      (issued enabled ops).map fun q => (q.1, q.2 / setup.surfaceScaleFactor ^ 2)) ∧
    (∀ e r, run setup ops (initReports dmaReport enabled) = .error e r →
      e = .tooManyQueries ∨ e = .reportType ∨ e = .reportOffset) ∧
    ∀ r r', run setup ops (initReports dmaReport enabled) = .ok () r → finish setup r = .ok () r' →
      r'.reportQueue = [] ∧
      reports r' = (issued enabled ops).map fun q => (q.1, q.2 / setup.surfaceScaleFactor ^ 2) := by
  have hvalues : (issued enabled ops).map (value setup) =
      (issued enabled ops).map fun q => (q.1, q.2 / setup.surfaceScaleFactor ^ 2) :=
    List.map_congr_left fun q hq => value_eq hscale (hcount q hq)
  have hrun := wp_run (@idle_initReports setup dmaReport enabled) ops
  refine ⟨?_, ?_, ?_⟩
  · rw [← hvalues]
    exact hrun.endState (fun _ _ h => h.tracks.reports) fun _ _ h => h.2
  · intro e r heq
    have hfault := (wp_of_eq_error heq).mp hrun
    cases e with
    | assertion => exact absurd rfl hfault.1
    | tooManyQueries => exact .inl rfl
    | reportType => exact .inr (.inl rfl)
    | reportOffset => exact .inr (.inr rfl)
  · intro r r' heq hfinish
    have hidle := hrun.ok heq
    obtain ⟨-, hreports, hqueue, -⟩ := (wp_finish hidle.tracks hidle.inDraw).ok hfinish
    exact ⟨hqueue, hreports.trans hvalues⟩

theorem reports_exact_scaled :
    issued true [.draw false false 9, .getReport 0x1000010, .draw false false 4] =
      [(0x1000010, 9)] ∧
    reports (endState (run ⟨fun _ => 0x100, 2⟩
        [.draw false false 9, .getReport 0x1000010, .draw false false 4, .finish])
          (initReports 0 true)) =
      [(0x1000010, 2)] ∧
    reports (endState (run ⟨fun _ => 0x100, 2⟩
        [.draw false false 9, .getReport 0x1000010, .draw false false 4]) (initReports 0 true)) <+:
      [(0x1000010, 9)].map fun q => (q.1, q.2 / 2 ^ 2) :=
  ⟨rfl, by decide +kernel,
    (reports_exact ⟨fun _ => 0x100, 2⟩ (by decide) 0 true
      [.draw false false 9, .getReport 0x1000010, .draw false false 4] (by decide)).1⟩

end DukeX.Nv2a.Reports
