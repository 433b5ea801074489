import ShimpzTeams.Audit.Log
import ShimpzTeams.Routines.Sample

/-!
# The audit log over whole runs

A sound log's files are one chain of lines from the first ever written, the current
file may end in a torn one, and an open writer knows the link its next line carries.
While no record finds the file still open on a torn line, the retained files stay one
chain over records, syncs, closings, rotations, failures of any call and restarts, in
any order. A record that finds it so runs its line into the torn one.
-/

namespace ShimpzTeams.Audit

open StrictJson Protocol Library Effect List

theorem ends_call {faults site refuses log returns} (hrefuses : refuses .unwritten log) (hreturns : returns () log) :
    Ends (call faults site) returns refuses log := by
  unfold call
  split
  · exact ends_throw hrefuses
  · exact ends_pure hreturns

theorem ends_onDisk {log change returns refuses} (h : returns () { log with disk := change log.disk }) :
    Ends (onDisk change) returns refuses log := h

theorem ends_ensureFlusher {log returns refuses} (faults)
    (h : ∀ after, after.disk = log.disk → after.writer.file = log.writer.file →
      after.writer.chain = log.writer.chain → returns () after) : Ends (ensureFlusher faults) returns refuses log := by
  unfold ensureFlusher
  refine ends_get_bind ?_
  split
  · exact ends_pure (h log rfl rfl rfl)
  · exact ends_modify (h _ rfl rfl rfl)

section

variable [Platform]

/-- Every byte ever written, oldest first. -/
def Disk.bytes (disk : Disk) : List UInt8 :=
  disk.removed ++ disk.second.getD [] ++ disk.first.getD [] ++ disk.current.getD []

/-- The files hold one chain up to this link, and the current one ends in this torn line. Where neither the
current file nor the newest rotated one holds a line, none was ever written. What had been written earlier
is still there. -/
structure Disk.Holds (earlier : List UInt8) (disk : Disk) (chain : String) (tail : List UInt8) : Prop where
  files : ∃ oldest older newer body, Chained genesis disk.removed oldest ∧
    Chained oldest (disk.second.getD []) older ∧ Chained older (disk.first.getD []) newer ∧
    Chained newer body chain ∧ disk.current.getD [] = body ++ tail
  torn : Begun chain tail
  found : disk.current.getD [] = [] → disk.first.getD [] = [] → disk.removed = [] ∧ disk.second.getD [] = []
  kept : earlier <+: disk.bytes

variable {earlier : List UInt8}

def Log.SoundAt (earlier : List UInt8) (log : Log) (chain : String) (tail : List UInt8) : Prop :=
  log.disk.Holds earlier chain tail ∧ (log.writer.file = true → log.writer.chain = some chain)

/-- The log is sound, whatever its last link and torn line. -/
def Log.Sound (earlier : List UInt8) (log : Log) : Prop := ∃ chain tail, log.SoundAt earlier chain tail

theorem sound_new : Log.new.Sound [] :=
  ⟨genesis, [], ⟨⟨genesis, genesis, genesis, [], .nil, .nil, .nil, .nil, rfl⟩, begun_nil _,
    fun _ _ => ⟨rfl, rfl⟩, nil_prefix⟩, fun h => by cases h⟩

variable {disk : Disk} {log : Log} {chain : String} {tail : List UInt8}

theorem Log.SoundAt.sound (h : log.SoundAt earlier chain tail) : log.Sound earlier := ⟨chain, tail, h⟩

theorem Log.SoundAt.closed (h : log.SoundAt earlier chain tail) : log.closed.SoundAt earlier chain tail :=
  ⟨h.1, fun hopen => by cases hopen⟩

theorem Log.Sound.closed (h : log.Sound earlier) : log.closed.Sound earlier := by
  obtain ⟨chain, tail, h⟩ := h
  exact h.closed.sound

theorem Log.Sound.restarted (h : log.Sound earlier) : log.restarted.Sound earlier := by
  obtain ⟨chain, tail, h⟩ := h
  exact ⟨chain, tail, h.1, fun hopen => by cases hopen⟩

variable {refuses : AuditError → Log → Prop} {returns : Unit → Log → Prop}

theorem Disk.Holds.ends_torn (h : disk.Holds earlier chain tail) (hne : tail ≠ []) :
    ∃ content, disk.current = some content ∧ content.getLast? ≠ some newline ∧ content ≠ [] ∧
      (disk.setFile .current (content ++ [newline])).Holds earlier (lineSha256 (tail ++ [newline])) [] ∧
      lineSha256 (finalLine (content ++ [newline])) = lineSha256 (tail ++ [newline]) := by
  obtain ⟨oldest, older, newer, body, hremoved, hsecond, hfirst, hbody, hcurrent⟩ := h.files
  cases hfile : disk.current with
  | none =>
    rw [hfile] at hcurrent
    exact absurd (append_eq_nil_iff.mp hcurrent.symm).2 hne
  | some content =>
    rw [hfile, Option.getD_some] at hcurrent
    subst hcurrent
    have hended := hbody.snoc h.torn
    have hwhole : body ++ tail ++ [newline] = body ++ (tail ++ [newline]) := append_assoc _ _ _
    refine ⟨_, rfl, ?_, by simp [hne], ⟨⟨oldest, older, newer, _, hremoved, hsecond, hfirst, hended, ?_⟩,
      begun_nil _, ?_, ?_⟩, ?_⟩
    · intro hlast
      rw [getLast?_append_of_ne_nil _ hne] at hlast
      exact h.torn.newline_notMem (mem_of_getLast? hlast)
    · simp [Disk.setFile]
    · intro hnil
      simp [Disk.setFile] at hnil
    · exact h.kept.trans ⟨[newline], by simp [Disk.bytes, Disk.setFile, hfile]⟩
    · rw [hwhole, hended.sha256_finalLine (by simp)]

theorem ends_lastLine_whole (faults) {place start link} (h : Chained start ((log.disk.file place).getD []) link) :
    Ends (lastLine faults place) (fun found after => after = log ∧ (found = none → (log.disk.file place).getD [] = []) ∧
        ∀ text ∈ found, lineSha256 text = link) (fun _ after => after = log) log := by
  unfold lastLine
  refine ends_bind (ends_call rfl (ends_get_bind ?_))
  cases hfile : log.disk.file place with
  | none => exact ends_pure ⟨rfl, fun _ => rfl, by simp⟩
  | some content =>
    rw [hfile, Option.getD_some] at h
    refine ends_bind (ends_call rfl ?_)
    split
    · exact ends_throw rfl
    split
    · next hempty => exact ends_pure ⟨rfl, fun _ => isEmpty_iff.mp hempty, by simp⟩
    · next hempty =>
      have hne : content ≠ [] := fun hnil => hempty (by rw [hnil]; rfl)
      have hended := h.ended.resolve_left hne
      rw [if_pos hended]
      refine ends_pure ⟨rfl, by simp, ?_⟩
      intro text htext
      rw [← Option.some.inj htext]
      exact h.sha256_finalLine hne

/-- Reading the current file's last line ends a torn one; what it finds carries the chain's link. -/
theorem ends_lastLine_current (faults) (h : log.disk.Holds earlier chain tail) : Ends (lastLine faults .current)
      (fun found after => ∃ link, after.disk.Holds earlier link [] ∧ after.writer = log.writer ∧
        (found = none → after.disk.current.getD [] = []) ∧ ∀ text ∈ found, lineSha256 text = link)
      (fun _ after => after = log) log := by
  by_cases hne : tail = []
  · subst hne
    obtain ⟨_, _, newer, body, _, _, _, hbody, hcurrent⟩ := h.files
    rw [append_nil] at hcurrent
    have hwhole : Chained newer ((log.disk.file .current).getD []) chain := by
      change Chained newer (log.disk.current.getD []) chain
      rwa [hcurrent]
    refine (ends_lastLine_whole faults hwhole).mono ?_ (fun _ _ hsame => hsame)
    rintro found after ⟨rfl, hnone, hfound⟩
    exact ⟨chain, h, rfl, hnone, hfound⟩
  · obtain ⟨content, hfile, hlast, hcontent, hholds, hfinal⟩ := h.ends_torn hne
    unfold lastLine
    refine ends_bind (ends_call rfl (ends_get_bind ?_))
    have hplace : log.disk.file .current = some content := hfile
    rw [hplace]
    refine ends_bind (ends_call rfl ?_)
    split
    · exact ends_throw rfl
    rw [if_neg (show ¬content.isEmpty = true by simpa using hcontent)]
    refine ends_bind (ends_call rfl (ends_bind (ends_call rfl (ends_bind (ends_modify ?_)))))
    refine ends_pure ⟨_, hholds, rfl, by simp, ?_⟩
    intro text htext
    rw [← Option.some.inj htext]
    exact hfinal

/-- What both searches find is the chain's link, and nothing is found only where nothing was written. -/
theorem Disk.Holds.link_of_none (h : disk.Holds earlier chain []) (hcurrent : disk.current.getD [] = [])
    (hfirst : disk.first.getD [] = []) : chain = genesis := by
  obtain ⟨oldest, older, newer, body, hremoved, hsecond, hnewest, hbody, hcontent⟩ := h.files
  obtain ⟨hnone, hsecondNone⟩ := h.found hcurrent hfirst
  rw [hcurrent, append_nil] at hcontent
  rw [hnone] at hremoved
  rw [hsecondNone] at hsecond
  rw [hfirst] at hnewest
  rw [← hcontent] at hbody
  rw [hbody.eq_of_nil, hnewest.eq_of_nil, hsecond.eq_of_nil, hremoved.eq_of_nil]

/-- The rotated files are whole, so the newest one's last line is read without a change. -/
theorem Disk.Holds.chained_first (h : disk.Holds earlier chain []) (hcurrent : disk.current.getD [] = []) :
    ∃ older, Chained older (disk.first.getD []) chain := by
  obtain ⟨_, older, newer, body, _, _, hfirst, hbody, hcontent⟩ := h.files
  rw [hcurrent, append_nil] at hcontent
  rw [← hcontent] at hbody
  exact ⟨older, by rw [hbody.eq_of_nil]; exact hfirst⟩

section

section

variable (h : disk.Holds earlier chain []) (hcurrent : disk.current.getD [] ≠ [])

include h hcurrent

theorem Disk.Holds.dropOldest : disk.dropOldest.Holds earlier chain [] := by
  obtain ⟨oldest, older, newer, body, hremoved, hsecond, hfirst, hbody, hcontent⟩ := h.files
  exact ⟨⟨older, older, newer, body, hremoved.trans hsecond, .nil, hfirst, hbody, hcontent⟩, h.torn,
    fun hnil => absurd hnil hcurrent, by simpa [Disk.bytes, Disk.dropOldest] using h.kept⟩

theorem Disk.Holds.shiftRotated (hsecond : disk.second = none) : disk.shiftRotated.Holds earlier chain [] := by
  obtain ⟨oldest, older, newer, body, hremoved, hnone, hfirst, hbody, hcontent⟩ := h.files
  rw [hsecond] at hnone
  have holder : older = oldest := hnone.eq_of_nil
  subst holder
  exact ⟨⟨older, newer, newer, body, hremoved, hfirst, .nil, hbody, hcontent⟩, h.torn,
    fun hnil => absurd hnil hcurrent, by simpa [Disk.bytes, Disk.shiftRotated, hsecond] using h.kept⟩

theorem Disk.Holds.shiftCurrent (hfirst : disk.first = none) : disk.shiftCurrent.Holds earlier chain [] := by
  obtain ⟨oldest, older, newer, body, hremoved, hsecond, hnone, hbody, hcontent⟩ := h.files
  rw [hfirst] at hnone
  have hnewer : newer = older := hnone.eq_of_nil
  subst hnewer
  rw [append_nil] at hcontent
  refine ⟨⟨oldest, newer, chain, [], hremoved, hsecond, ?_, .nil, rfl⟩, h.torn,
    fun _ hnil => absurd hnil hcurrent, by simpa [Disk.bytes, Disk.shiftCurrent, hfirst] using h.kept⟩
  change Chained newer (disk.current.getD []) chain
  rwa [hcontent]

end

/-- The same writer, and files that hold the chain up to this link in whole lines. -/
def Settled (earlier : List UInt8) (chain : String) (writer : Writer) (log : Log) : Prop :=
  log.disk.Holds earlier chain [] ∧ log.writer = writer

variable {writer : Writer}

theorem ends_removeOldest (faults) (h : Settled earlier chain writer log) (hcurrent : log.disk.current.getD [] ≠ []) :
    Ends (removeOldest faults)
      (fun _ after => Settled earlier chain writer after ∧ after.disk.current.getD [] ≠ [] ∧ after.disk.second = none)
      (fun _ after => Settled earlier chain writer after) log := by
  unfold removeOldest
  refine ends_bind (ends_call h (ends_get_bind ?_))
  split
  · exact ends_bind (ends_call h (ends_onDisk ⟨⟨h.1.dropOldest hcurrent, h.2⟩, hcurrent, rfl⟩))
  · next hsecond => exact ends_pure ⟨h, hcurrent, Option.not_isSome_iff_eq_none.mp hsecond⟩

theorem ends_renameRotated (faults) (h : Settled earlier chain writer log)
    (hcurrent : log.disk.current.getD [] ≠ []) (hsecond : log.disk.second = none) : Ends (renameRotated faults)
      (fun _ after => Settled earlier chain writer after ∧ after.disk.current.getD [] ≠ [] ∧ after.disk.first = none)
      (fun _ after => Settled earlier chain writer after) log := by
  unfold renameRotated
  refine ends_bind (ends_call h (ends_get_bind ?_))
  split
  · exact ends_bind (ends_call h (ends_onDisk ⟨⟨h.1.shiftRotated hcurrent hsecond, h.2⟩, hcurrent, rfl⟩))
  · next hfirst => exact ends_pure ⟨h, hcurrent, Option.not_isSome_iff_eq_none.mp hfirst⟩

/-- Rotation moves file boundaries only, wherever it stops. -/
theorem ends_rotate (maxBytes faults) (h : Settled earlier chain writer log) :
    Ends (rotate maxBytes faults) (fun _ after => Settled earlier chain writer after)
      (fun _ after => Settled earlier chain writer after) log := by
  unfold rotate
  refine ends_bind (ends_call h (ends_get_bind ?_))
  split
  · exact ends_pure h
  · next hsize =>
    have hcurrent : log.disk.current.getD [] ≠ [] := by
      intro hnil
      apply hsize
      cases hfile : log.disk.current with
      | none => rfl
      | some content =>
        rw [hfile] at hnil
        simp [show content = [] from hnil]
    refine ends_bind ((ends_removeOldest faults h hcurrent).mono ?_ (fun _ _ hsettled => hsettled))
    rintro _ removed ⟨hremoved, hcurrent, hsecond⟩
    refine ends_bind ((ends_renameRotated faults hremoved hcurrent hsecond).mono ?_ (fun _ _ hsettled => hsettled))
    rintro _ renamed ⟨hrenamed, hcurrent, hfirst⟩
    exact ends_bind (ends_call hrenamed (ends_onDisk ⟨hrenamed.1.shiftCurrent hcurrent hfirst, hrenamed.2⟩))

end

/-- The writer holds the current file open on whole lines, and knows the link of the next one. -/
def Ready (earlier : List UInt8) (log : Log) : Prop := ∃ chain, log.SoundAt earlier chain [] ∧ log.writer.file = true

/-- The search goes on in the newest rotated file when the current one holds no line. -/
theorem ends_findLast (faults) {writer} (h : log.disk.Holds earlier chain tail) (hwriter : log.writer = writer) :
    Ends (findLast faults)
      (fun found after => ∃ link, Settled earlier link writer after ∧ found.elim genesis lineSha256 = link)
      (fun _ after => ∃ link torn, after.disk.Holds earlier link torn ∧ after.writer = writer) log := by
  refine ends_bind ((ends_lastLine_current faults h).mono ?_ ?_)
  · rintro here after ⟨link, hholds, hsame, hnone, hfound⟩
    have hsettled : Settled earlier link writer after := ⟨hholds, hsame.trans hwriter⟩
    cases here with
    | some text => exact ends_pure ⟨link, hsettled, hfound text rfl⟩
    | none =>
      have hcurrent := hnone rfl
      obtain ⟨older, hfirst⟩ := hholds.chained_first hcurrent
      refine (ends_lastLine_whole faults hfirst).mono ?_ ?_
      · rintro found later ⟨rfl, hempty, hsha⟩
        refine ⟨link, hsettled, ?_⟩
        cases found with
        | none => exact (hholds.link_of_none hcurrent (hempty rfl)).symm
        | some text => exact hsha text rfl
      · rintro _ later rfl
        exact ⟨link, [], hholds, hsettled.2⟩
  · rintro _ after rfl
    exact ⟨chain, tail, h, hwriter⟩

theorem ends_reopen (maxBytes faults) (h : log.Sound earlier) (hfile : log.writer.file = false) :
    Ends (reopen maxBytes faults) (fun _ after => Ready earlier after) (fun _ after => after.Sound earlier) log := by
  have hsound {after : Log} {link : String} {torn : List UInt8} (hholds : after.disk.Holds earlier link torn)
      (hwriter : after.writer = log.writer) : after.Sound earlier :=
    ⟨link, torn, hholds, fun hopen => by rw [hwriter, hfile] at hopen; cases hopen⟩
  obtain ⟨chain, tail, hholds, -⟩ := id h
  unfold reopen
  refine ends_bind (ends_call h (ends_bind (ends_call h (ends_bind ?_))))
  refine (ends_findLast faults hholds rfl).mono ?_ ?_
  · rintro found after ⟨link, hsettled, hlink⟩
    refine ends_bind ((ends_rotate maxBytes faults hsettled).mono ?_ ?_)
    · rintro _ rotated ⟨hrotated, hwriter⟩
      have hcreated : ({ rotated.disk with current := some (rotated.disk.current.getD []) } : Disk).Holds earlier link [] :=
        ⟨hrotated.files, hrotated.torn, hrotated.found, hrotated.kept⟩
      refine ends_bind (ends_call (hsound hrotated hwriter) (ends_bind (ends_onDisk ?_)))
      refine ends_bind (ends_call (hsound hcreated hwriter) (ends_modify ?_))
      exact ⟨link, ⟨hcreated, fun _ => congrArg some hlink⟩, rfl⟩
    · rintro _ rotated ⟨hrotated, hwriter⟩
      exact hsound hrotated hwriter
  · rintro _ after ⟨link, torn, hafter, hwriter⟩
    exact hsound hafter hwriter

/-- A record may go on: the writer does not hold the current file open on a torn line within its size. -/
def Fit (maxBytes : Nat) (log : Log) : Prop :=
  log.writer.file = true → (log.disk.current.getD []).length ≤ maxBytes →
    log.disk.current.getD [] = [] ∨ (log.disk.current.getD []).getLast? = some newline

theorem Log.SoundAt.eq_nil (h : log.SoundAt earlier chain tail)
    (hended : log.disk.current.getD [] = [] ∨ (log.disk.current.getD []).getLast? = some newline) : tail = [] := by
  obtain ⟨_, _, _, body, _, _, _, _, hcurrent⟩ := h.1.files
  by_contra hne
  rw [hcurrent] at hended
  rcases hended with hnil | hlast
  · exact hne (append_eq_nil_iff.mp hnil).2
  · rw [getLast?_append_of_ne_nil _ hne] at hlast
    exact h.1.torn.newline_notMem (mem_of_getLast? hlast)

/-- A sync changes only whether a line waits for it and whether the log failed. -/
theorem ends_syncLocked (faults) (h : log.SoundAt earlier chain tail) :
    Ends (syncLocked faults) (fun _ after => after.SoundAt earlier chain tail) (fun _ after => after.SoundAt earlier chain tail)
      log := by
  unfold syncLocked
  refine ends_get_bind ?_
  split
  · split
    · exact ends_bind (ends_modify (ends_throw h))
    · exact ends_modify h
  · exact ends_pure h

theorem ends_openLocked (maxBytes faults) (h : log.Sound earlier) (hfit : Fit maxBytes log) :
    Ends (openLocked maxBytes faults) (fun _ after => Ready earlier after) (fun _ after => after.Sound earlier) log := by
  unfold openLocked
  refine ends_get_bind ?_
  split
  · next hopen =>
    refine ends_bind (ends_call h (ends_bind (ends_call h (ends_bind (ends_call h ?_)))))
    obtain ⟨chain, tail, hsound⟩ := h
    split
    · next hsize =>
      have htail := hsound.eq_nil (hfit hopen hsize)
      subst htail
      exact ends_pure ⟨chain, hsound, hopen⟩
    · refine ends_bind ((ends_syncLocked faults hsound).mono ?_ (fun _ _ hafter => hafter.sound))
      intro _ synced hsynced
      exact ends_bind (ends_modify (ends_reopen maxBytes faults hsynced.closed.sound rfl))
  · next hopen => exact ends_reopen maxBytes faults h (by simpa using hopen)

omit [Platform] in
theorem bytes_append (disk : Disk) (text) : (disk.append text).bytes = disk.bytes ++ text := by
  simp [Disk.bytes, Disk.append]

/-- Whole lines that continue the chain, and part of one more, after whole ones. -/
theorem Disk.Holds.append (h : disk.Holds earlier chain []) {text link}
    (htext : Chained chain text link) (htail : Begun link tail) :
    (disk.append (text ++ tail)).Holds earlier link tail := by
  obtain ⟨oldest, older, newer, body, hremoved, hsecond, hfirst, hbody, hcurrent⟩ := h.files
  rw [append_nil] at hcurrent
  refine ⟨⟨oldest, older, newer, _, hremoved, hsecond, hfirst, hbody.trans htext, ?_⟩, htail, ?_,
    h.kept.trans ⟨_, (bytes_append disk _).symm⟩⟩
  · simp [Disk.append, hcurrent]
  · intro hnil hnone
    exact h.found (append_eq_nil_iff.mp hnil).1 hnone

variable {fields : List Field}

theorem chained_line (hfields : ∀ field ∈ fields, Spelled field.2) :
    Chained chain (line fields chain) (lineSha256 (line fields chain)) := by
  have hbegun : Begun chain (line fields chain).dropLast := ⟨fields, hfields, prefix_rfl⟩
  have hline := Chained.nil.snoc hbegun
  rwa [nil_append, ← line_eq] at hline

def Disk.Records (disk : Disk) (fields : List Field) : Prop := ∃ chain, line fields chain ∈ lines disk.bytes

theorem Disk.Holds.chained_bytes (h : disk.Holds earlier chain tail) :
    ∃ bytes, disk.bytes = bytes ++ tail ∧ Chained genesis bytes chain := by
  obtain ⟨oldest, older, newer, body, hremoved, hsecond, hfirst, hbody, hcurrent⟩ := h.files
  refine ⟨_, ?_, ((hremoved.trans hsecond).trans hfirst).trans hbody⟩
  rw [Disk.bytes, hcurrent, append_assoc _ body tail]

theorem Disk.Holds.records_append (h : disk.Holds earlier chain [])
    (hfields : ∀ field ∈ fields, Spelled field.2) : (disk.append (line fields chain)).Records fields := by
  obtain ⟨bytes, hbytes, hchained⟩ := h.chained_bytes
  have hbegun : Begun chain (line fields chain).dropLast := ⟨fields, hfields, prefix_rfl⟩
  refine ⟨chain, ?_⟩
  rw [bytes_append, hbytes, append_nil, hchained.lines_append, line_eq, lines_line hbegun.newline_notMem]
  simp

theorem ends_writeLine (faults) (hfields : ∀ field ∈ fields, Spelled field.2) (h : log.SoundAt earlier chain []) :
    Ends (writeLine faults (line fields chain)) (fun _ after => after.Sound earlier ∧ after.disk.Records fields)
      (fun _ after => after.Sound earlier) log := by
  unfold writeLine
  split
  · next count _ =>
    have hbegun : Begun chain ((line fields chain).dropLast.take count) := ⟨fields, hfields, take_prefix _ _⟩
    exact ends_bind (ends_onDisk (ends_throw ⟨chain, _, h.1.append .nil hbegun, h.2⟩))
  · refine ends_bind (ends_onDisk (ends_bind (ends_modify (ends_ensureFlusher faults ?_))))
    intro after hdisk _ hchain
    have hholds := h.1.append (chained_line hfields) (begun_nil _)
    rw [append_nil, ← show after.disk = log.disk.append (line fields chain) from hdisk] at hholds
    refine ⟨⟨_, [], hholds, fun _ => hchain⟩, ?_⟩
    rw [hdisk]
    exact h.1.records_append hfields

theorem ends_appendLine (maxBytes faults) (hfields : ∀ field ∈ fields, Spelled field.2) (h : log.Sound earlier)
    (hfit : Fit maxBytes log) :
    Ends (appendLine maxBytes faults fields) (fun _ after => after.Sound earlier ∧ after.disk.Records fields)
      (fun _ after => after.Sound earlier) log := by
  unfold appendLine
  refine ends_get_bind ?_
  split
  · exact ends_throw h
  · refine ends_bind ((ends_openLocked maxBytes faults h hfit).mono ?_ (fun _ _ hafter => hafter))
    rintro _ opened ⟨chain, hopened, hfile⟩
    refine ends_get_bind ?_
    rw [hopened.2 hfile, if_neg (by simp [hfile])]
    exact ends_writeLine faults hfields hopened

end

theorem spelled_of_prepare {canonicalCause canonicalOrigin event draw fields traceId}
    (h : prepare canonicalCause canonicalOrigin event draw = .ok (fields, traceId)) :
    ∀ field ∈ fields, Spelled field.2 := by
  unfold prepare at h
  split at h
  · cases h
  · next admitted hadmitted =>
    have hspelled := spelled_of_admitEvent canonicalCause canonicalOrigin hadmitted
    dsimp only at h
    split at h
    · cases h
      intro field hfield
      rcases mem_append.mp hfield with hgiven | hadded
      · exact hspelled field hgiven
      · simp only [mem_cons, not_mem_nil, or_false] at hadded
        rcases hadded with rfl | rfl <;> exact .string _
    · cases h
    · cases h
      intro field hfield
      simp only [mem_append, mem_cons, not_mem_nil, or_false] at hfield
      rcases hfield with (hgiven | rfl) | rfl | rfl
      · exact hspelled field hgiven
      all_goals exact .string _

variable [Platform] {log : Log} {earlier : List UInt8}

def Maintains (earlier : List UInt8) (operation : Operation Unit) (log : Log) : Prop :=
  Ends operation (fun _ after => after.Sound earlier) (fun _ after => after.Sound earlier) log

theorem Maintains.after {operation} (h : Maintains earlier operation log) : (operation.run log).2.Sound earlier := by
  rcases hrun : operation.run log with ⟨result, after⟩
  cases result with
  | ok value => exact h.returned hrun
  | error refusal => exact h.refused hrun

theorem maintains_syncLocked (faults) (h : log.Sound earlier) : Maintains earlier (syncLocked faults) log := by
  obtain ⟨chain, tail, h⟩ := h
  exact (ends_syncLocked faults h).mono (fun _ _ hafter => hafter.sound) (fun _ _ hafter => hafter.sound)

theorem maintains_flush (faults) (h : log.Sound earlier) : Maintains earlier (flush faults) log := by
  unfold flush
  refine ends_get_bind ?_
  split
  · exact ends_throw h
  · exact maintains_syncLocked faults h

/-- A sync whose failure is passed over, or ends in a change that keeps the log sound. -/
theorem maintains_trySync (faults) (h : log.Sound earlier) {handler}
    (hhandler : ∀ refusal after, after.Sound earlier → Maintains earlier (handler refusal) after) :
    Maintains earlier (tryCatch (syncLocked faults) handler) log :=
  ends_tryCatch ((maintains_syncLocked faults h).mono (fun _ _ hafter => hafter)
    (fun refusal after hafter => hhandler refusal after hafter))

theorem maintains_flushWorker (faults due) (h : log.Sound earlier) :
    Maintains earlier (flushWorker faults due) log := by
  unfold flushWorker
  refine ends_get_bind ?_
  split
  · exact ends_pure h
  split
  · refine ends_bind ((maintains_trySync faults h fun _ _ hafter => ends_pure hafter).mono ?_
      (fun _ _ hafter => hafter))
    exact fun _ after hafter => ends_modify hafter.closed
  split
  · exact ends_modify h.closed
  split
  · exact maintains_trySync faults h fun _ _ hafter => ends_modify hafter.closed
  · exact ends_pure h

theorem maintains_failedCloses (h : log.Sound earlier) : Maintains earlier failedCloses log := by
  unfold failedCloses
  refine ends_get_bind ?_
  split
  · exact ends_throw h
  · exact ends_pure h

theorem maintains_beginClose (faults) (h : log.Sound earlier) : Maintains earlier (beginClose faults) log := by
  unfold beginClose
  refine ends_get_bind ?_
  split
  · exact ends_modify h
  · refine ends_bind ((maintains_trySync faults h fun _ _ hafter => ends_pure hafter).mono ?_
      (fun _ _ hafter => hafter))
    exact fun _ after hafter => ends_bind (ends_modify (maintains_failedCloses hafter.closed))

theorem maintains_endClose (h : log.Sound earlier) : Maintains earlier endClose log := by
  unfold endClose
  refine ends_get_bind ?_
  split
  · exact ends_pure h
  · exact ends_bind (ends_modify (maintains_failedCloses h))

variable {fields : List Field}

section

/- The one spelling of a failed Action's cause, and of an HTTP origin. -/
variable (canonicalCause : Value → Option Value) (canonicalOrigin : String → Option String)

/-- One operation of a process, a pass of its flusher, or a new process, with what is reported as recorded. -/
inductive Step (maxBytes : Nat) (fit : Log → Prop) : Log → Option (List Field) → Log → Prop
  | recorded {log after faults event draw fields traceId} (hfit : fit log)
      (hfields : prepare canonicalCause canonicalOrigin event draw = .ok (fields, traceId))
      (hrun : (recordBlocking canonicalCause canonicalOrigin maxBytes faults event draw).run log =
        (.ok traceId, after)) : Step maxBytes fit log (some fields) after
  | refused {log after faults event draw refusal} (hfit : fit log)
      (hrun : (recordBlocking canonicalCause canonicalOrigin maxBytes faults event draw).run log =
        (.error refusal, after)) : Step maxBytes fit log none after
  | flush {log : Log} (faults : Faults) : Step maxBytes fit log none ((flush faults).run log).2
  | flushWorker {log : Log} (faults : Faults) (due : Bool) :
      Step maxBytes fit log none ((flushWorker faults due).run log).2
  | beginClose {log : Log} (faults : Faults) : Step maxBytes fit log none ((beginClose faults).run log).2
  | endClose {log : Log} : Step maxBytes fit log none (endClose.run log).2
  | restart {log : Log} : Step maxBytes fit log none log.restarted

inductive Runs (maxBytes : Nat) (fit : Log → Prop) : Log → List (List Field) → Prop
  | new : Runs maxBytes fit .new []
  | step {log after : Log} {reported} {report : Option (List Field)}
      (hrun : Runs maxBytes fit log reported)
      (hstep : Step canonicalCause canonicalOrigin maxBytes fit log report after) :
      Runs maxBytes fit after (reported ++ report.toList)

variable {canonicalCause canonicalOrigin} {maxBytes : Nat}

theorem ends_recordBlocking (faults event draw) (h : log.Sound earlier) (hfit : Fit maxBytes log) :
    Ends (recordBlocking canonicalCause canonicalOrigin maxBytes faults event draw)
      (fun traceId after => after.Sound earlier ∧ ∀ fields,
        prepare canonicalCause canonicalOrigin event draw = .ok (fields, traceId) → after.disk.Records fields)
      (fun _ after => after.Sound earlier) log := by
  unfold recordBlocking
  split
  · exact ends_throw h
  · next fields traceId hprepared =>
    refine ends_bind ((ends_appendLine maxBytes faults (spelled_of_prepare hprepared) h hfit).mono ?_
      (fun _ _ hafter => hafter))
    rintro _ after ⟨hsound, hrecords⟩
    refine ends_pure ⟨hsound, ?_⟩
    rintro others hothers
    rw [hprepared] at hothers
    cases hothers
    exact hrecords

theorem Step.sound {after report} (h : log.Sound earlier)
    (hstep : Step canonicalCause canonicalOrigin maxBytes (Fit maxBytes) log report after) :
    after.Sound earlier ∧ ∀ fields ∈ report, after.disk.Records fields := by
  cases hstep with
  | @recorded _ faults event draw fields traceId hfit hfields hrun =>
    obtain ⟨hsound, hrecords⟩ := (ends_recordBlocking faults event draw h hfit).returned hrun
    refine ⟨hsound, ?_⟩
    rintro _ ⟨⟩
    exact hrecords fields hfields
  | @refused _ faults event draw refusal hfit hrun =>
    exact ⟨(ends_recordBlocking faults event draw h hfit).refused hrun, by simp⟩
  | flush faults => exact ⟨(maintains_flush faults h).after, by simp⟩
  | flushWorker faults due => exact ⟨(maintains_flushWorker faults due h).after, by simp⟩
  | beginClose faults => exact ⟨(maintains_beginClose faults h).after, by simp⟩
  | endClose => exact ⟨(maintains_endClose h).after, by simp⟩
  | restart => exact ⟨h.restarted, by simp⟩

theorem Log.Sound.refresh (h : log.Sound earlier) : log.Sound log.disk.bytes := by
  obtain ⟨chain, tail, hholds, hwriter⟩ := h
  exact ⟨chain, tail, ⟨hholds.files, hholds.torn, hholds.found, prefix_rfl⟩, hwriter⟩

/-- A recorded line stays a line of the log while bytes are only added. -/
theorem Disk.Records.mono {disk after : Disk} {chain tail}
    (h : disk.Records fields) (hholds : disk.Holds earlier chain tail) (hkept : disk.bytes <+: after.bytes) :
    after.Records fields := by
  obtain ⟨link, hline⟩ := h
  obtain ⟨bytes, hbytes, hchained⟩ := hholds.chained_bytes
  obtain ⟨added, hadded⟩ := hkept
  refine ⟨link, ?_⟩
  rw [hbytes, hchained.lines_append, mem_append] at hline
  have hwhole : line fields link ∈ lines bytes := by
    refine hline.resolve_right ?_
    intro htail
    by_cases hne : tail = []
    · subst hne
      cases htail
    · rw [lines_tail hholds.torn.newline_notMem hne, mem_singleton] at htail
      refine hholds.torn.newline_notMem ?_
      rw [← htail, line_eq]
      simp
  rw [← hadded, hbytes, append_assoc, hchained.lines_append]
  exact mem_append_left _ hwhole

theorem Runs.sound {reported} (h : Runs canonicalCause canonicalOrigin maxBytes (Fit maxBytes) log reported) :
    log.Sound [] ∧ ∀ fields ∈ reported, log.disk.Records fields := by
  induction h with
  | new => exact ⟨sound_new, by simp⟩
  | @step log after reported report _ hstep ih =>
    obtain ⟨hsound, hreported⟩ := ih
    obtain ⟨hafter, hreport⟩ := hstep.sound hsound.refresh
    refine ⟨?_, ?_⟩
    · obtain ⟨chain, tail, hholds, hwriter⟩ := hafter
      exact ⟨chain, tail, ⟨hholds.files, hholds.torn, hholds.found, nil_prefix⟩, hwriter⟩
    · intro fields hfields
      rcases mem_append.mp hfields with hearlier | hnew
      · obtain ⟨_, _, hbefore, -⟩ := hsound
        obtain ⟨_, _, hholds, -⟩ := hafter
        exact (hreported fields hearlier).mono hbefore hholds.kept
      · exact hreport fields (by simpa using hnew)

def Disk.retained (disk : Disk) : List (List UInt8) :=
  lines (disk.second.getD []) ++ lines (disk.first.getD []) ++ lines (disk.current.getD [])

/-- The retained files are one unbroken chain of lines: the rotated ones end in a line break, every line is that
of one event, whole or cut short by a failed write, and each carries the SHA-256 of the line before it. -/
structure Disk.Intact (disk : Disk) : Prop where
  ended : ∀ content, disk.first = some content ∨ disk.second = some content →
    content = [] ∨ content.getLast? = some newline
  apart : ∀ text ∈ disk.retained, ∃ chain, Starts chain text
  linked : disk.retained.IsChain Links

theorem Disk.Holds.intact {disk : Disk} {chain tail} (h : disk.Holds earlier chain tail) : disk.Intact := by
  obtain ⟨oldest, older, newer, body, _, hsecond, hfirst, hbody, hcurrent⟩ := h.files
  have hchained := (hsecond.trans hfirst).trans hbody
  have hretained : disk.retained = lines (disk.second.getD [] ++ disk.first.getD [] ++ body ++ tail) := by
    rw [Disk.retained, hcurrent, hchained.lines_append, hbody.lines_append, (hsecond.trans hfirst).lines_append,
      hsecond.lines_append, ← append_assoc]
  refine ⟨?_, ?_, ?_⟩
  · rintro content (hfile | hfile)
    · rw [hfile] at hfirst
      exact hfirst.ended
    · rw [hfile] at hsecond
      exact hsecond.ended
  · intro text htext
    rw [hretained, hchained.lines_append, mem_append] at htext
    rcases htext with hwhole | htail
    · exact hchained.starts_of_mem hwhole
    · exact ⟨chain, h.torn.starts_of_mem htail⟩
  · rw [hretained]
    exact hchained.isChain_append_tail h.torn

/-- In every run whose records never find the file still open on a torn line, the retained files are one
unbroken chain, and every event reported as recorded is a whole line of the log. -/
theorem audit_chain_unbroken {reported : List (List Field)}
    (h : Runs canonicalCause canonicalOrigin maxBytes (Fit maxBytes) log reported) :
    log.disk.Intact ∧ ∀ fields ∈ reported, log.disk.Records fields := by
  obtain ⟨⟨chain, tail, hholds, -⟩, hreported⟩ := h.sound
  exact ⟨hholds.intact, hreported⟩

end

/-- An event that says only that an operation of nobody went well. -/
def plainEvent : AuditEvent :=
  (((AuditEvent.new.setField "operation" (.string "read") (.string _)).setField "result" (.string "ok") (.string _)).setField
    "principal_id" .null .null).setField "principal_class" (.string "absent") (.string _)

def plainFields : List Field :=
  [("operation", .string "read"), ("result", .string "ok"), ("principal_id", .null),
    ("principal_class", .string "absent"), ("trace_id", .string "t"), ("ts", .string "now"),
    ("service", .string "team-local")]

/-- What the random source and the clock answer. -/
def plainDraw : Draw := ⟨some "t", "now"⟩

omit [Platform] in
theorem prepare_plainEvent : prepare (fun _ => none) (fun _ => none) plainEvent plainDraw = .ok (plainFields, "t") := by
  rfl

theorem exists_writeValue_object {members : List Field} (h : members ≠ []) :
    ∃ rest, writeValue ⟨true, true, true⟩ (.object members) = '{' :: '"' :: rest := by
  rw [writeValue, writeMembers_eq_map]
  generalize hsorted : ordered ⟨true, true, true⟩ _ = entries
  cases entries with
  | nil =>
    have hlength := congrArg List.length hsorted
    rw [show ∀ entries : List (String × List Char), (ordered ⟨true, true, true⟩ entries).length = entries.length from
      fun entries => (perm_insertionSort _ _).length_eq] at hlength
    simp [h] at hlength
  | cons entry others =>
    obtain ⟨rest, hrest⟩ := exists_intercalate_cons [] (writeMember ⟨true, true, true⟩ entry)
      (others.map (writeMember ⟨true, true, true⟩)) ['}']
    rw [map_cons, cons_append]
    exact ⟨_, congrArg ('{' :: ·) hrest⟩

/-- The first byte of a line is that of a brace, the second that of a quote. -/
theorem exists_line_eq (fields chain) : ∃ rest, line fields chain = 123 :: 34 :: rest := by
  have hmembers : fields ++ [("prev_sha256", Value.string chain)] ≠ [] := by simp
  obtain ⟨rest, hrest⟩ := exists_writeValue_object hmembers
  unfold line lineText dumps
  rw [utf8_ofList, hrest]
  exact ⟨_, rfl⟩

/-- A line that a second brace runs into is not the line of one event. -/
theorem not_starts_of_braces (chain rest) : ¬Starts chain (123 :: 123 :: rest) := by
  have hbegun {text : List UInt8} (htext : Begun chain text) : ∀ others, text ≠ 123 :: 123 :: others := by
    rintro others rfl
    obtain ⟨fields, -, hstart⟩ := htext
    obtain ⟨tail, hline⟩ := exists_line_eq fields chain
    have hwhole := hstart.trans (List.dropLast_prefix _)
    rw [hline] at hwhole
    simp [cons_prefix_cons] at hwhole
  intro h
  generalize htext : (123 :: 123 :: rest : List UInt8) = text at h
  cases h with
  | whole fields =>
    obtain ⟨tail, hline⟩ := exists_line_eq fields chain
    rw [hline] at htext
    simp at htext
  | @torn text hstart =>
    match text, htext, hstart with
    | [], htext, _ => simp at htext
    | [first], htext, _ =>
      simp only [singleton_append, List.cons.injEq] at htext
      exact absurd htext.2.1 (by decide)
    | first :: second :: others, htext, hstart =>
      simp only [cons_append, List.cons.injEq] at htext
      obtain ⟨rfl, rfl, -⟩ := htext
      exact hbegun hstart others rfl
  | last hstart => exact hbegun hstart rest htext.symm

/-- The log after a first record whose write stopped after one byte. -/
def tornLog : Log := ⟨⟨some [123], none, none, []⟩, ⟨true, some genesis, false, false, false, false⟩, false⟩

/-- The disk fills up after the first byte. -/
def fullDisk : Faults := ⟨fun _ => false, some 1⟩

/-- The log after one more record, of this line, that runs into the torn byte. -/
def mergedLog (text : List UInt8) : Log :=
  ⟨⟨some (123 :: text), none, none, []⟩, ⟨true, some (lineSha256 text), true, false, false, true⟩, true⟩

theorem appendLine_fullDisk : (appendLine 1048576 fullDisk plainFields).run .new = (.error .unwritten, tornLog) := by
  obtain ⟨rest, hline⟩ := exists_line_eq plainFields genesis
  have hrun : (appendLine 1048576 fullDisk plainFields).run .new =
      (.error .unwritten, { tornLog with disk := Disk.empty.append ((line plainFields genesis).dropLast.take 1) }) :=
    rfl
  rw [hrun, hline]
  rfl

theorem writeLine_tornLog (text) : (writeLine .none text).run tornLog = (.ok (), mergedLog text) := rfl

theorem appendLine_tornLog (fields) :
    (appendLine 1048576 .none fields).run tornLog = (.ok (), mergedLog (line fields genesis)) := by
  rw [← writeLine_tornLog]
  rfl

theorem step_fullDisk {fit} (hfit : fit .new) : Step (fun _ => none) (fun _ => none) 1048576 fit .new none tornLog := by
  refine @Step.refused _ _ _ _ _ _ _ fullDisk plainEvent plainDraw .unwritten hfit ?_
  unfold recordBlocking
  rw [prepare_plainEvent]
  change (appendLine 1048576 fullDisk plainFields >>= _).run .new = _
  rw [run_bind, appendLine_fullDisk]
  rfl

theorem step_recorded {fit after} (hfit : fit log)
    (h : (appendLine 1048576 .none plainFields).run log = (.ok (), after)) :
    Step (fun _ => none) (fun _ => none) 1048576 fit log (some plainFields) after := by
  refine @Step.recorded _ _ _ _ _ _ _ .none plainEvent plainDraw plainFields "t" hfit prepare_plainEvent ?_
  unfold recordBlocking
  rw [prepare_plainEvent]
  change (appendLine 1048576 .none plainFields >>= _).run log = _
  rw [run_bind, h]
  rfl

/-- A record whose write fails after one byte leaves the writer open, and the next record's line runs into it. -/
theorem runs_mergedLog : Runs (fun _ => none) (fun _ => none) 1048576 (fun _ => True)
      (mergedLog (line plainFields genesis)) [plainFields] :=
  (Runs.new.step (step_fullDisk trivial)).step (step_recorded trivial (appendLine_tornLog plainFields))

/-- A new process ends the torn line and links its own to it. -/
theorem exists_appendLine_restarted :
    ∃ after, (appendLine 1048576 .none plainFields).run tornLog.restarted = (.ok (), after) :=
  ⟨_, rfl⟩

theorem retained_mergedLog (text) : (mergedLog text).disk.retained = lines (123 :: text) := rfl

theorem not_intact_mergedLog : ¬(mergedLog (line plainFields genesis)).disk.Intact := by
  intro h
  obtain ⟨rest, hline⟩ := exists_line_eq plainFields genesis
  have hbegun : Begun genesis (line plainFields genesis).dropLast :=
    ⟨plainFields, spelled_of_prepare prepare_plainEvent, prefix_rfl⟩
  have hlines : lines (123 :: line plainFields genesis) = [123 :: line plainFields genesis] := by
    have hsplit : newline ∉ 123 :: (line plainFields genesis).dropLast := by
      rw [mem_cons, not_or]
      exact ⟨by decide, hbegun.newline_notMem⟩
    rw [line_eq]
    exact lines_line hsplit []
  obtain ⟨chain, hstarts⟩ := h.apart (123 :: line plainFields genesis) (by rw [retained_mergedLog, hlines]; simp)
  rw [hline] at hstarts
  exact not_starts_of_braces chain _ hstarts

omit [Platform] in
/-- A write that fails after part of its line, and a record after it in the same process, break the chain. -/
theorem audit_chain_broken_by_torn_write :
    ∃ log reported, @Runs Routines.utcPlatform (fun _ => none) (fun _ => none) 1048576 (fun _ => True) log reported ∧
      ¬@Disk.Intact Routines.utcPlatform log.disk :=
  ⟨_, _, @runs_mergedLog Routines.utcPlatform, @not_intact_mergedLog Routines.utcPlatform⟩

omit [Platform] in
/-- A write torn after one byte, and a new process whose record ends the torn line: the chain holds. -/
theorem audit_chain_unbroken_after_restart :
    ∃ log, @Runs Routines.utcPlatform (fun _ => none) (fun _ => none) 1048576 (@Fit 1048576) log [plainFields] ∧
      @Disk.Intact Routines.utcPlatform log.disk ∧ @Disk.Records Routines.utcPlatform log.disk plainFields := by
  let := Routines.utcPlatform
  obtain ⟨log, hlog⟩ : ∃ log, Runs (fun _ => none) (fun _ => none) 1048576 (Fit 1048576) log [plainFields] :=
    ⟨_, ((Runs.new.step (step_fullDisk fun hopen => by cases hopen)).step .restart).step
      (step_recorded (fun hopen => by cases hopen) exists_appendLine_restarted.choose_spec)⟩
  obtain ⟨hintact, hrecords⟩ := audit_chain_unbroken hlog
  exact ⟨log, hlog, hintact, hrecords plainFields (by simp)⟩

end ShimpzTeams.Audit
