import Mathlib.Data.List.Nodup
import PrefixIntegral.Proofs.Recording

/-!
Which outlets are attached after any history of requests. The application may attach and detach its
own, recorders may be made, replaced, silenced and woken in any order, also those that are no longer
in general use. The outlets of the application stay as it left them. Those of the journal are the
ones that were put up last, and the recorder that put them up still has the sinks that they write
to.
-/

namespace PrefixIntegral

def Outlet.isApplication (o : Outlet) : Bool :=
  match o.owner with
  | .application _ => true
  | .journal _ => false

def Sink.isFile : Sink → Bool
  | file _ => true
  | stream | standardError => false

/-! ## Boards -/

namespace Board

variable {b : Board} {application : List Outlet}

/-- The outlets of the application are the given ones, those of the journal are the ones that it put
up last, and none is attached twice. -/
structure Tidy (b : Board) (application : List Outlet) : Prop where
  application : b.attached.filter Outlet.isApplication = application
  installed : b.attached.filter (fun o => !o.isApplication) = b.installed
  nodup : b.attached.Nodup

theorem tidy_empty : empty.Tidy [] := ⟨rfl, rfl, List.nodup_nil⟩

theorem Tidy.mem_installed_iff (h : b.Tidy application) {o : Outlet} :
    o ∈ b.installed ↔ o ∈ b.attached ∧ o.isApplication = false := by
  rw [← h.installed, List.mem_filter, Bool.not_eq_true']

theorem Tidy.filter_not_mem (h : b.Tidy application) :
    b.attached.filter (· ∉ b.installed) = application := by
  rw [← h.application]
  apply List.filter_congr
  intro o hmem
  cases happlication : o.isApplication with
  | true =>
      rw [decide_eq_true_iff]
      intro hinstalled
      rw [(h.mem_installed_iff.1 hinstalled).2] at happlication
      cases happlication
  | false =>
      rw [decide_eq_false_iff_not]
      exact fun hnot => hnot (h.mem_installed_iff.2 ⟨hmem, happlication⟩)

theorem isApplication_of_mem_numbered {number : Nat} {sinks : List Sink} {o : Outlet}
    (h : o ∈ numbered number sinks) : o.isApplication = false := by
  obtain ⟨pair, -, rfl⟩ := List.mem_map.1 h
  rfl

theorem nodup_numbered (number : Nat) (sinks : List Sink) : (numbered number sinks).Nodup := by
  have howner : (numbered number sinks).map Outlet.owner =
      (List.range' number sinks.length).map Owner.journal := by
    rw [numbered, List.map_map, ← List.zipIdx_map_snd, List.map_map]
    rfl
  apply List.Nodup.of_map Outlet.owner
  rw [howner]
  apply List.Nodup.map
  · exact fun _ _ => Owner.journal.inj
  · exact List.nodup_range'

theorem Tidy.install (h : b.Tidy application) (sinks : List Sink) :
    (b.install sinks).Tidy application := by
  have hown : ∀ o ∈ application, o.isApplication := by
    intro o hmem
    rw [← h.application] at hmem
    exact (List.mem_filter.1 hmem).2
  have hnew : ∀ o ∈ numbered b.nextNumber sinks, o.isApplication = false :=
    fun o => isApplication_of_mem_numbered
  have hattached : (b.install sinks).attached = application ++ numbered b.nextNumber sinks := by
    rw [Board.install, h.filter_not_mem]
  constructor
  · rw [hattached, List.filter_append, List.filter_eq_self.2 hown,
      List.filter_eq_nil_iff.2 (by simpa using hnew), List.append_nil]
  · rw [hattached, List.filter_append, List.filter_eq_nil_iff.2 (by simpa using hown),
      List.filter_eq_self.2 (by simpa using hnew), List.nil_append]
    rfl
  · -- All that was up before is taken down, so the new outlets meet those of the application only.
    rw [hattached, List.nodup_append]
    refine ⟨?_, nodup_numbered _ _, ?_⟩
    · rw [← h.application]
      exact h.nodup.filter _
    · intro o hmem other hother heq
      have happlication := hown o hmem
      rw [heq, hnew other hother] at happlication
      cases happlication

theorem Tidy.mem_application_iff (h : b.Tidy application) {o : Outlet} (ho : o.isApplication) :
    o ∈ application ↔ o ∈ b.attached := by
  rw [← h.application, List.mem_filter]
  exact and_iff_left ho

theorem installed_attach (b : Board) (o : Outlet) : (b.attach o).installed = b.installed := by
  unfold attach
  split <;> rfl

theorem Tidy.attach (h : b.Tidy application) {o : Outlet} (ho : o.isApplication) :
    (b.attach o).Tidy (if o ∈ application then application else application ++ [o]) := by
  unfold Board.attach
  by_cases hmem : o ∈ b.attached
  · rw [if_pos hmem, if_pos ((h.mem_application_iff ho).2 hmem)]
    exact h
  · rw [if_neg hmem, if_neg fun hin => hmem ((h.mem_application_iff ho).1 hin)]
    constructor
    · simp [List.filter_append, h.application, ho]
    · simp [List.filter_append, h.installed, ho]
    · rw [← List.concat_eq_append]
      exact h.nodup.concat hmem

theorem Tidy.detach (h : b.Tidy application) {o : Outlet} (ho : o.isApplication) :
    (b.detach o).Tidy (application.filter (· ≠ o)) := by
  constructor
  · rw [← h.application, Board.detach, List.filter_filter, List.filter_filter]
    simp only [Bool.and_comm]
  · show (b.attached.filter (· ≠ o)).filter (fun o => !o.isApplication) = b.installed
    rw [← h.installed, List.filter_filter]
    apply List.filter_congr
    intro other _
    by_cases heq : other = o
    · simp [heq, ho]
    · simp [heq]
  · exact h.nodup.filter _

def Alone (b : Board) (o : Outlet) : Prop :=
  o ∈ b.attached ∧ ∀ other ∈ b.attached, other.sink = o.sink → other = o

theorem receivedBy_append (sink : Sink) (first second : List (Sink × Entry)) :
    receivedBy sink (first ++ second) = receivedBy sink first ++ receivedBy sink second :=
  List.filterMap_append

theorem receivedBy_map (sink : Sink) (entry : Entry) (outlets : List Outlet) :
    receivedBy sink (outlets.map fun o => (o.sink, entry)) =
      (outlets.filter fun o => o.sink = sink).map fun _ => entry := by
  induction outlets with
  | nil => rfl
  | cons o rest ih =>
      rw [List.map_cons, receivedBy, List.filterMap_cons, List.filter_cons]
      by_cases hsink : o.sink = sink
      · simp only [hsink, decide_true, if_true, List.map_cons]
        exact congrArg _ ih
      · simp only [hsink, decide_false, Bool.false_eq_true, if_false]
        exact ih

/-- An outlet that is attached once and alone writes to its sink lets it receive everything once. -/
theorem receivedBy_deliver (hnodup : b.attached.Nodup) {o : Outlet} (h : b.Alone o)
    (entries : List Entry) : receivedBy o.sink (b.deliver entries) = entries := by
  have hfilter : b.attached.filter (fun other => other.sink = o.sink) = [o] := by
    rw [← List.replicate_one, ← List.count_eq_one_of_mem hnodup h.1, ← List.filter_eq]
    apply List.filter_congr
    intro other hmem
    simp only [decide_eq_decide]
    constructor
    · intro hsink
      exact h.2 other hmem hsink
    · intro heq
      rw [heq]
  induction entries with
  | nil => rfl
  | cons entry rest ih =>
      have hdeliver : b.deliver (entry :: rest) =
          b.attached.map (fun other => (other.sink, entry)) ++ b.deliver rest := List.flatMap_cons
      rw [hdeliver, receivedBy_append, ih, receivedBy_map, hfilter]
      rfl

end Board

/-! ## The sinks of a recorder -/

namespace Recorder

def streams (r : Recorder) : List Sink :=
  if r.level = .silent then [] else [if r.toStream then .stream else .standardError]

theorem isFile_of_mem_streams {r : Recorder} {sink : Sink} (h : sink ∈ r.streams) :
    sink.isFile = false := by
  unfold streams at h
  split at h
  · cases h
  · rw [List.mem_singleton.1 h]
    split <;> rfl

theorem filter_isFile_sinks (r : Recorder) :
    r.sinks.filter Sink.isFile = r.file.toList.map .file := by
  have hstreams : r.streams.filter Sink.isFile = [] := by
    rw [List.filter_eq_nil_iff]
    intro sink hmem
    rw [isFile_of_mem_streams hmem]
    exact Bool.false_ne_true
  show (r.streams ++ r.file.toList.map Sink.file).filter Sink.isFile = _
  rw [List.filter_append, hstreams, List.nil_append]
  cases r.file <;> rfl

theorem filter_not_isFile_sinks (r : Recorder) :
    r.sinks.filter (fun sink => !sink.isFile) = r.streams := by
  have hstreams : r.streams.filter (fun sink => !sink.isFile) = r.streams := by
    rw [List.filter_eq_self]
    intro sink hmem
    rw [isFile_of_mem_streams hmem]
    rfl
  show (r.streams ++ r.file.toList.map Sink.file).filter (fun sink => !sink.isFile) = _
  rw [List.filter_append, hstreams]
  cases r.file <;> exact List.append_nil _

theorem countP_isFile_sinks_le (r : Recorder) : r.sinks.countP Sink.isFile ≤ 1 := by
  rw [List.countP_eq_length_filter, filter_isFile_sinks]
  cases r.file with
  | none => exact Nat.zero_le 1
  | some name => exact Nat.le_refl 1

theorem countP_not_isFile_sinks_le (r : Recorder) :
    r.sinks.countP (fun sink => !sink.isFile) ≤ 1 := by
  rw [List.countP_eq_length_filter, filter_not_isFile_sinks, streams]
  split
  · exact Nat.zero_le 1
  · exact Nat.le_refl 1

theorem exists_iff_filter_ne_nil {chosen : Sink → Bool} {sinks : List Sink} :
    (∃ sink ∈ sinks, chosen sink) ↔ sinks.filter chosen ≠ [] := by
  simp [List.filter_eq_nil_iff]

theorem exists_file_iff (r : Recorder) : (∃ sink ∈ r.sinks, sink.isFile) ↔ r.file.isSome := by
  rw [exists_iff_filter_ne_nil, filter_isFile_sinks]
  cases r.file <;> simp

theorem exists_stream_iff (r : Recorder) :
    (∃ sink ∈ r.sinks, !sink.isFile) ↔ r.level ≠ .silent := by
  rw [exists_iff_filter_ne_nil, filter_not_isFile_sinks, streams]
  split <;> simp [*]

end Recorder

/-! ## Journals -/

namespace Journal

variable {j : Journal} {application : List Outlet} {installer : Option Nat} {i : Nat} {r : Recorder}

def sinksAt (j : Journal) (place : Option Nat) : List Sink :=
  (place.bind fun i => j.recorders[i]?).elim [] Recorder.sinks

def madeOnDemand (j : Journal) : Option Nat :=
  if j.recorder?.isSome then none else some j.recorders.length

/-- The place of a recorder if a change of its verbosity makes it put up its outlets anew: it
becomes silent or ceases to be. -/
def reinstalled (j : Journal) (i : Nat) (level : Verbosity) : Option Nat :=
  match j.recorders[i]? with
  | none => none
  | some r => if (r.level = .silent) = (level = .silent) then none else some i

/-- The board is tidy, and the outlets of the journal write to the sinks of the recorder that put
them up, which is the one in the given place. -/
structure Orderly (j : Journal) (application : List Outlet) (installer : Option Nat) : Prop where
  board : j.board.Tidy application
  sinks : j.board.installed.map Outlet.sink = j.sinksAt installer

theorem orderly_empty : empty.Orderly [] none := ⟨Board.tidy_empty, rfl⟩

theorem Orderly.make (h : j.Orderly application installer) (r : Recorder) :
    (j.make r).Orderly application (some j.recorders.length) := by
  constructor
  · exact h.board.install r.sinks
  · show (Board.numbered _ r.sinks).map Outlet.sink = _
    rw [Board.sinks_numbered, sinksAt, Option.bind_some]
    show _ = (j.recorders ++ [r])[j.recorders.length]?.elim [] Recorder.sinks
    rw [List.getElem?_concat_length]
    rfl

theorem Orderly.configure (h : j.Orderly application installer) (r : Recorder) :
    (j.configure r).Orderly application (some j.recorders.length) :=
  ⟨(h.make r).board, (h.make r).sinks⟩

theorem Orderly.ensured (h : j.Orderly application installer) :
    j.ensured.Orderly application (j.madeOnDemand.or installer) := by
  unfold Journal.ensured madeOnDemand
  split
  · exact h
  · exact h.configure .default

theorem sinksAt_withRecorder (hfound : j.recorders[i]? = some r) {changed : Recorder}
    (hsinks : changed.sinks = r.sinks) (place : Option Nat) :
    (j.withRecorder i changed).sinksAt place = j.sinksAt place := by
  cases place with
  | none => rfl
  | some k =>
      obtain ⟨hlt, -⟩ := List.getElem?_eq_some_iff.1 hfound
      rw [sinksAt, sinksAt, Option.bind_some, Option.bind_some]
      show (j.recorders.set i changed)[k]?.elim [] Recorder.sinks = _
      rw [List.getElem?_set]
      by_cases hself : i = k
      · rw [if_pos hself, if_pos hlt, ← hself, hfound]
        exact hsinks
      · rw [if_neg hself]

theorem Orderly.withRecorder (h : j.Orderly application installer)
    (hfound : j.recorders[i]? = some r) {changed : Recorder} (hsinks : changed.sinks = r.sinks) :
    (j.withRecorder i changed).Orderly application installer := by
  constructor
  · exact h.board
  · rw [sinksAt_withRecorder hfound hsinks]
    exact h.sinks

theorem Orderly.setLevelOf (h : j.Orderly application installer) (i : Nat) (level : Verbosity) :
    (j.setLevelOf i level).Orderly application ((j.reinstalled i level).or installer) := by
  unfold Journal.setLevelOf reinstalled
  cases hfound : j.recorders[i]? with
  | none => exact h
  | some r =>
      dsimp only
      split
      · rename_i hsame
        apply h.withRecorder hfound
        unfold Recorder.sinks
        simp only [hsame]
      · constructor
        · exact h.board.install _
        · obtain ⟨hlt, -⟩ := List.getElem?_eq_some_iff.1 hfound
          show (Board.numbered _ _).map Outlet.sink =
            (j.recorders.set i _)[i]?.elim [] Recorder.sinks
          rw [Board.sinks_numbered, List.getElem?_set_self hlt]
          rfl

theorem Orderly.noteAll (h : j.Orderly application installer) (remarks : List Remark) :
    (j.noteAll remarks).1.Orderly application
      ((if remarks.isEmpty then none else j.madeOnDemand).or installer) := by
  cases remarks with
  | nil => exact h
  | cons remark rest =>
      obtain ⟨i, r, huses⟩ := j.exists_uses_ensured
      rw [noteAll_cons, huses.noteAll]
      exact h.ensured.withRecorder huses.found (r.sinks_after _)

theorem Orderly.attach (h : j.Orderly application installer) (tag : Nat) (sink : Sink) :
    (j.attach tag sink).Orderly (if ⟨.application tag, sink⟩ ∈ application then application
      else application ++ [⟨.application tag, sink⟩]) installer := by
  constructor
  · exact h.board.attach rfl
  · show (j.board.attach _).installed.map Outlet.sink = j.sinksAt installer
    rw [Board.installed_attach]
    exact h.sinks

theorem sinksAt_cases (j : Journal) (place : Option Nat) :
    j.sinksAt place = [] ∨ ∃ r : Recorder, j.sinksAt place = r.sinks := by
  unfold sinksAt
  cases place.bind fun i => j.recorders[i]? with
  | none => exact .inl rfl
  | some r => exact .inr ⟨r, rfl⟩

theorem Orderly.count_le_one (h : j.Orderly application installer) {chosen : Sink → Bool}
    (hone : ∀ r : Recorder, r.sinks.countP chosen ≤ 1) :
    j.board.installed.countP (fun o => chosen o.sink) ≤ 1 := by
  have hmap : j.board.installed.countP (fun o => chosen o.sink) =
      (j.sinksAt installer).countP chosen := by
    rw [← h.sinks, List.countP_map]
    rfl
  rw [hmap]
  obtain hnone | ⟨r, hr⟩ := j.sinksAt_cases installer
  · rw [hnone]
    exact Nat.zero_le _
  · rw [hr]
    exact hone r

/-! ### The recorder in general use -/

/-- The recorder in general use, if there is one, is the one that put up its outlets last. -/
def Shown (j : Journal) (installer : Option Nat) : Prop :=
  ∀ i, j.current = some i → installer = some i ∧ ∃ r, j.recorders[i]? = some r

theorem shown_configure (j : Journal) (r : Recorder) :
    (j.configure r).Shown (some j.recorders.length) := by
  intro i hcurrent
  obtain rfl := Option.some.inj hcurrent
  exact ⟨rfl, r, (j.configure_uses r).found⟩

theorem Shown.ensured (h : j.Shown installer) :
    j.ensured.Shown (j.madeOnDemand.or installer) := by
  unfold Journal.ensured madeOnDemand
  split
  · exact h
  · exact j.shown_configure .default

theorem Shown.withRecorder (h : j.Shown installer) (i : Nat) (changed : Recorder) :
    (j.withRecorder i changed).Shown installer := by
  intro k hcurrent
  obtain ⟨hinstaller, r, hfound⟩ := h k hcurrent
  refine ⟨hinstaller, ?_⟩
  obtain ⟨hlt, -⟩ := List.getElem?_eq_some_iff.1 hfound
  have hlength : k < (j.recorders.set i changed).length := by
    rwa [List.length_set]
  exact ⟨_, List.getElem?_eq_getElem hlength⟩

theorem Shown.noteAll (h : j.Shown installer) (remarks : List Remark) :
    (j.noteAll remarks).1.Shown
      ((if remarks.isEmpty then none else j.madeOnDemand).or installer) := by
  cases remarks with
  | nil => exact h
  | cons remark rest =>
      obtain ⟨i, r, huses⟩ := j.exists_uses_ensured
      rw [noteAll_cons, huses.noteAll]
      exact h.ensured.withRecorder i _

/-- The outlets of the journal are to the sinks of the recorder in general use. -/
theorem Orderly.exists_outlet_iff (h : j.Orderly application installer)
    (hshown : j.Shown installer) (hr : j.recorder? = some r) (chosen : Sink → Bool) :
    (∃ o ∈ j.board.attached, !o.isApplication ∧ chosen o.sink) ↔ ∃ sink ∈ r.sinks, chosen sink := by
  obtain ⟨i, hcurrent, hfound⟩ := Option.bind_eq_some_iff.1 hr
  have hsinks : j.board.installed.map Outlet.sink = r.sinks := by
    rw [h.sinks, (hshown i hcurrent).1, sinksAt, Option.bind_some, hfound]
    rfl
  rw [← hsinks]
  constructor
  · intro hexists
    obtain ⟨o, hmem, hown, hchosen⟩ := hexists
    rw [Bool.not_eq_true'] at hown
    exact ⟨o.sink, List.mem_map_of_mem (h.board.mem_installed_iff.2 ⟨hmem, hown⟩), hchosen⟩
  · intro hexists
    obtain ⟨sink, hmem, hchosen⟩ := hexists
    obtain ⟨o, hinstalled, rfl⟩ := List.mem_map.1 hmem
    obtain ⟨hattached, hown⟩ := h.board.mem_installed_iff.1 hinstalled
    exact ⟨o, hattached, by rw [hown]; rfl, hchosen⟩

theorem Shown.setLevel (h : j.Shown installer) (level : Verbosity) : (j.setLevel level).Shown
    ((match j.current with
      | none => some j.recorders.length
      | some i => j.reinstalled i level).or installer) := by
  unfold Journal.setLevel
  cases hcurrent : j.current with
  | none => exact j.shown_configure _
  | some i =>
      obtain ⟨hinstaller, r, hfound⟩ := h i hcurrent
      have hplace : (j.reinstalled i level).or installer = some i := by
        rw [reinstalled, hfound, hinstaller]
        dsimp only
        split <;> rfl
      have hshown := h.withRecorder i { r with level }
      dsimp only
      rw [hplace, ← hinstaller, setLevelOf, hfound]
      dsimp only
      split
      · exact hshown
      · exact hshown

end Journal

/-! ## Sessions -/

namespace TimedRequest

/-- The place of the recorder that puts up its outlets in answer to a request, if one does. -/
def installs (timed : TimedRequest) (j : Journal) : Option Nat :=
  match timed.request with
  | .configure _ | .make _ => some j.recorders.length
  | .setLevel level =>
    match j.current with
    | none => some j.recorders.length
    | some i => j.reinstalled i level
  | .setLevelOf i level => j.reinstalled i level
  | .level | .isEnabled _ => j.madeOnDemand
  | .forget | .attach .. | .detach .. | .tick _ => none
  | .info .. | .progress .. | .milestone _ | .warning _ | .debug _ | .critical _ | .summary _
  | .read .. | .integrate .. | .integrateTree .. =>
    if timed.remarks.isEmpty then none else j.madeOnDemand

def arrange (application : List Outlet) (timed : TimedRequest) : List Outlet :=
  match timed.request with
  | .attach tag sink =>
    if ⟨.application tag, sink⟩ ∈ application then application
    else application ++ [⟨.application tag, sink⟩]
  | .detach tag sink => application.filter (· ≠ ⟨.application tag, sink⟩)
  | _ => application

def isGeneral (timed : TimedRequest) : Bool :=
  match timed.request with
  | .make _ | .setLevelOf .. => false
  | _ => true

theorem installs_of_work {timed : TimedRequest} {work : Work} (h : timed.work? = some work)
    (j : Journal) :
    timed.installs j = if work.remarks.isEmpty then none else j.madeOnDemand := by
  rw [← remarks_of_work h]
  obtain ⟨request, clock⟩ := timed
  cases request with
  | info | progress | milestone | warning | debug | critical | summary | read | integrate
  | integrateTree => rfl
  | configure | make | forget | setLevel | setLevelOf | level | isEnabled | attach | detach
  | tick => cases h

theorem arrange_of_work {timed : TimedRequest} {work : Work} (h : timed.work? = some work)
    (application : List Outlet) : timed.arrange application = application := by
  obtain ⟨request, clock⟩ := timed
  cases request with
  | attach | detach => cases h
  | _ => rfl

end TimedRequest

namespace Session

variable {s : Session} {application : List Outlet} {installer : Option Nat}

/-- The place of the recorder that put up its outlets last in the course of requests. -/
def lastInstaller (s : Session) (before : Option Nat) : List TimedRequest → Option Nat
  | [] => before
  | timed :: rest =>
    (s.answerAt timed.clock timed.request).session.lastInstaller
      ((timed.installs s.journal).or before) rest

theorem orderly_answerAt (h : s.journal.Orderly application installer) (timed : TimedRequest) :
    (s.answerAt timed.clock timed.request).session.journal.Orderly (timed.arrange application)
      ((timed.installs s.journal).or installer) := by
  cases hwork : timed.work? with
  | some work =>
      rw [answerAt_of_work hwork, TimedRequest.arrange_of_work hwork,
        TimedRequest.installs_of_work hwork]
      exact h.noteAll work.remarks
  | none =>
      obtain ⟨request, clock⟩ := timed
      cases request with
      | info | progress | milestone | warning | debug | critical | summary | read | integrate
      | integrateTree => cases hwork
      | configure setup => exact h.configure _
      | make setup => exact h.make _
      | forget => exact ⟨h.board, h.sinks⟩
      | setLevel level =>
          show (s.journal.setLevel level).Orderly application _
          unfold Journal.setLevel TimedRequest.installs
          cases s.journal.current with
          | none => exact h.configure _
          | some i => exact h.setLevelOf i level
      | setLevelOf i level => exact h.setLevelOf i level
      | level => exact h.ensured
      | isEnabled required => exact h.ensured
      | attach tag sink => exact h.attach tag sink
      | detach tag sink => exact ⟨h.board.detach rfl, h.sinks⟩
      | tick now => exact h

theorem shown_answerAt (h : s.journal.Shown installer) {timed : TimedRequest}
    (hgeneral : timed.isGeneral) :
    (s.answerAt timed.clock timed.request).session.journal.Shown
      ((timed.installs s.journal).or installer) := by
  cases hwork : timed.work? with
  | some work =>
      rw [answerAt_of_work hwork, TimedRequest.installs_of_work hwork]
      exact h.noteAll work.remarks
  | none =>
      obtain ⟨request, clock⟩ := timed
      cases request with
      | info | progress | milestone | warning | debug | critical | summary | read | integrate
      | integrateTree => cases hwork
      | make | setLevelOf => cases hgeneral
      | configure setup => exact s.journal.shown_configure _
      | forget => exact nofun
      | setLevel level => exact h.setLevel level
      | level => exact h.ensured
      | isEnabled required => exact h.ensured
      | attach tag sink => exact h
      | detach tag sink => exact h
      | tick now => exact h

theorem orderly_after (h : s.journal.Orderly application installer) (requests : List TimedRequest) :
    (s.after requests).journal.Orderly (requests.foldl TimedRequest.arrange application)
      (s.lastInstaller installer requests) := by
  induction requests generalizing s application installer with
  | nil => exact h
  | cons timed rest ih => exact ih (orderly_answerAt h timed)

theorem shown_after (h : s.journal.Shown installer) {requests : List TimedRequest}
    (hgeneral : ∀ timed ∈ requests, timed.isGeneral) :
    (s.after requests).journal.Shown (s.lastInstaller installer requests) := by
  induction requests generalizing s installer with
  | nil => exact h
  | cons timed rest ih =>
      exact ih (shown_answerAt h (hgeneral timed (by simp)))
        fun other hmem => hgeneral other (by simp [hmem])

/-- Whatever is asked of a session, the outlets of the application are those that it attached and
has not detached, in this order. Those of the journal are the ones put up last, to the sinks of the
recorder that put them up; no outlet is attached twice, and at most one of the journal writes to a
file and one to a stream. If no recorder but the one in general use was ever made or changed, it
has a stream exactly if it is not silent, and a file exactly if it is to write to one. And what a
recorder is to say, in general use or not, comes once to every sink with an outlet of its own. -/
theorem outlets_after (now : Float) (requests : List TimedRequest) :
    let s := (start now).after requests
    let j := s.journal
    j.board.attached.filter Outlet.isApplication = requests.foldl TimedRequest.arrange [] ∧
    j.board.attached.filter (fun o => !o.isApplication) = j.board.installed ∧
    j.board.installed.map Outlet.sink = j.sinksAt ((start now).lastInstaller none requests) ∧
    j.board.attached.Nodup ∧
    j.board.installed.countP (fun o => o.sink.isFile) ≤ 1 ∧
    j.board.installed.countP (fun o => !o.sink.isFile) ≤ 1 ∧
    ((∀ timed ∈ requests, timed.isGeneral) → ∀ r, j.recorder? = some r →
      ((∃ o ∈ j.board.attached, !o.isApplication ∧ !o.sink.isFile) ↔ r.level ≠ .silent) ∧
      ((∃ o ∈ j.board.attached, !o.isApplication ∧ o.sink.isFile) ↔ r.file.isSome)) ∧
    (∀ i (r : Recorder), j.ensured.Uses i r → ∀ o, j.ensured.board.Alone o →
      r.Tells fun remark =>
        receivedBy o.sink (s.answerAt remark.asked.clock remark.asked.request).written) ∧
    (∀ i (r : Recorder), j.recorders[i]? = some r → ∀ o, j.board.Alone o →
      r.Tells fun remark => receivedBy o.sink (j.noteBy i remark).2) := by
  intro s j
  have horderly : j.Orderly (requests.foldl TimedRequest.arrange [])
      ((start now).lastInstaller none requests) := orderly_after Journal.orderly_empty requests
  refine ⟨horderly.board.application, horderly.board.installed, horderly.sinks,
    horderly.board.nodup, horderly.count_le_one Recorder.countP_isFile_sinks_le,
    horderly.count_le_one Recorder.countP_not_isFile_sinks_le, ?_, ?_, ?_⟩
  · intro hgeneral r hr
    have hstart : (start now).journal.Shown none := nofun
    have hshown := shown_after hstart hgeneral
    rw [← r.exists_stream_iff, ← r.exists_file_iff]
    constructor
    · exact horderly.exists_outlet_iff hshown hr fun sink => !sink.isFile
    · exact horderly.exists_outlet_iff hshown hr Sink.isFile
  · intro i r huses o halone
    have hreceived (remark : Remark) :
        receivedBy o.sink (s.answerAt remark.asked.clock remark.asked.request).written =
          (r.note remark).2 := by
      rw [written_asked, ← Journal.note_ensured, huses.note]
      exact Board.receivedBy_deliver horderly.ensured.board.nodup halone _
    rw [funext hreceived]
    exact r.tells_note
  · intro i r hfound o halone
    have hreceived (remark : Remark) :
        receivedBy o.sink (j.noteBy i remark).2 = (r.note remark).2 := by
      rw [Journal.noteBy_eq hfound]
      exact Board.receivedBy_deliver horderly.board.nodup halone _
    rw [funext hreceived]
    exact r.tells_note

end Session

end PrefixIntegral
