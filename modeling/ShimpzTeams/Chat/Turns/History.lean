import ShimpzTeams.Chat.Turns.Steps
import ShimpzTeams.Routines.Sample

/-!
# Turns over whole histories, and their one execution

A history is any list of the store's calls, crashes and failing writes among
them. Within a turn's grant, what its sends are answered follows from the
durable record alone. As long as a turn is claimed only while its hold is dropped or
its record kept, each turn has at most one hold, and an equal send attaches to it. A
hold that forgot its turn and is not dropped yet breaks both.
-/

namespace ShimpzTeams.Chat

open StrictJson Protocol Library List

section

variable {turns next : Turns} {teamId : String} {sender : Sender} {now : Int} {io : Io}

def Turns.held (turns : Turns) (key : TurnKey) : List Nat :=
  (turns.holds.filter fun entry => entry.2 == key).map Prod.fst

variable {key : TurnKey}

theorem mem_held {hold} : hold ∈ turns.held key ↔ (hold, key) ∈ turns.holds := by
  simp [Turns.held]

def Recorded (turns : Turns) : TurnCall → Prop
  | .claim teamId sender _ _ =>
    turns.held (teamId, sender.nonce) ≠ [] → (ofNonce sender.nonce (turns.files teamId)).isSome
  | _ => True

instance (turns : Turns) : DecidablePred (Recorded turns)
  | .claim .. => inferInstanceAs (Decidable (_ → _))
  | .forget .. | .checkpoint .. | .recordEnd .. | .announce .. | .settle .. | .drop .. | .crash =>
    inferInstanceAs (Decidable True)

structure Registered (turns : Turns) : Prop where
  below : ∀ entry ∈ turns.holds, entry.1 < turns.nextHold
  single : (turns.holds.map Prod.snd).Nodup
  channel : ∀ entry ∈ turns.holds, ∃ channel, turns.channel entry.2 = some channel ∧ channel.hold = entry.1

structure OneExecution (turns : Turns) (key : TurnKey) : Prop where
  single : (turns.held key).length ≤ 1
  /-- A send of the turn is never taken as new or left behind. -/
  taken : ∀ hold ∈ turns.held key, ∀ sender now io, sender.nonce = key.2 →
    Recorded turns (.claim key.1 sender now io) →
      (turns.claim key.1 sender now io).2 = .ok (.attached hold) ∨
      (∃ terminal, (turns.claim key.1 sender now io).2 = .ok (.ended terminal)) ∨
      ∃ problem, (turns.claim key.1 sender now io).2 = .error problem
  /-- A send equal to the running turn's attaches to its hold. -/
  attaches : ∀ hold ∈ turns.held key, ∀ record now io,
    ofNonce key.2 (turns.files key.1) = some record → record.state = .running →
    now < record.sender.grantDeadline → turns.read key.1 io = .ok (turns.files key.1) →
      (turns.claim key.1 record.sender now io).2 = .ok (.attached hold)

structure SameProcess (before after : Turns) : Prop where
  running : after.running = before.running
  holds : after.holds = before.holds
  nextHold : after.nextHold = before.nextHold

theorem sameProcess_put (records) : SameProcess turns (turns.put teamId records) :=
  ⟨rfl, rfl, rfl⟩

theorem Registered.of_same (hregistered : Registered turns) (hsame : SameProcess turns next) : Registered next where
  below := by
    rw [hsame.holds, hsame.nextHold]
    exact hregistered.below
  single := by
    rw [hsame.holds]
    exact hregistered.single
  channel := by
    rw [hsame.holds]
    unfold Turns.channel
    rw [hsame.running]
    exact hregistered.channel

theorem channel_hold_self (turns : Turns) (key) :
    (turns.hold key).1.channel key = some ⟨key, turns.nextHold, none⟩ := by
  simp [Turns.hold, Turns.channel, find?_append, find?_eq_none.mpr]

theorem find?_channel_remove {running : List Channel} {other} (hne : other ≠ key) :
    (running.filter fun channel => channel.key != key).find? (fun channel => channel.key == other) =
      running.find? fun channel => channel.key == other := by
  rw [find?_filter]
  congr 1
  funext channel
  by_cases h : channel.key = other
  · simp [h, hne]
  · simp [h]

theorem channel_hold_ne (turns : Turns) {other} (hne : other ≠ key) :
    (turns.hold key).1.channel other = turns.channel other := by
  have hlast : [(⟨key, turns.nextHold, none⟩ : Channel)].find? (fun channel => channel.key == other) =
      none := by
    simp [hne.symm]
  simp only [Turns.hold, Turns.channel]
  rw [find?_append, hlast, Option.or_none, find?_channel_remove hne]

section

variable (hregistered : Registered turns)

include hregistered

theorem Registered.hold (hnone : ∀ entry ∈ turns.holds, entry.2 ≠ key) : Registered (turns.hold key).1 where
  below := by
    intro entry hentry
    rcases mem_append.mp hentry with hold | hnew
    · exact Nat.lt_succ_of_lt (hregistered.below entry hold)
    · obtain rfl := mem_singleton.mp hnew
      exact Nat.lt_succ_self _
  single := by
    have hnew : key ∉ turns.holds.map Prod.snd := by
      intro hmem
      obtain ⟨entry, hentry, heq⟩ := mem_map.mp hmem
      exact hnone entry hentry heq
    simp only [Turns.hold, map_append, map_cons, map_nil]
    exact nodup_append.mpr ⟨hregistered.single, nodup_singleton _, by
      rintro other hother _ hlast rfl
      exact hnew (mem_singleton.mp hlast ▸ hother)⟩
  channel := by
    intro entry hentry
    rcases mem_append.mp hentry with hold | hnew
    · rw [channel_hold_ne turns (hnone entry hold)]
      exact hregistered.channel entry hold
    · obtain rfl := mem_singleton.mp hnew
      exact ⟨_, channel_hold_self turns key, rfl⟩

/-- Dropping a turn's only hold leaves every other turn's channel. -/
theorem Registered.drop {hold key} (hkey : turns.keyOf hold = some key) : Registered (turns.drop hold key) where
  below := by
    intro entry hentry
    exact hregistered.below entry (mem_filter.mp hentry).1
  single := (filter_sublist.map Prod.snd).nodup hregistered.single
  channel := by
    intro entry hentry
    obtain ⟨hmem, hother⟩ := mem_filter.mp hentry
    obtain ⟨dropped, hdropped, rfl⟩ := Option.map_eq_some_iff.mp hkey
    obtain ⟨hdroppedMem, hnumber⟩ := find?_key_mem hdropped
    -- two holds of one turn are one, so another hold's turn is another turn
    have hne : entry.2 ≠ dropped.2 := by
      intro heq
      have := eq_of_key_eq hregistered.single hmem hdroppedMem heq
      rw [this, hnumber] at hother
      simp at hother
    obtain ⟨channel, hchannel, hhold⟩ := hregistered.channel entry hmem
    exact ⟨channel, (find?_channel_remove hne).trans hchannel, hhold⟩

theorem Registered.announce (key terminal) : Registered (turns.announce key terminal) where
  below := hregistered.below
  single := hregistered.single
  channel := by
    intro entry hentry
    obtain ⟨channel, hchannel, hhold⟩ := hregistered.channel entry hentry
    refine ⟨if channel.key = key then { channel with terminal := some terminal } else channel, ?_, ?_⟩
    · unfold Turns.channel Turns.announce at *
      rw [find?_map]
      have hsame : ((fun channel : Channel => channel.key == entry.2) ∘ fun channel : Channel =>
          if channel.key = key then { channel with terminal := some terminal } else channel) =
          fun channel => channel.key == entry.2 := by
        funext other
        simp only [Function.comp]
        split_ifs <;> rfl
      rw [hsame, hchannel, Option.map_some]
    · split_ifs <;> exact hhold

/-- A claim whose turn has a record wherever it has a hold keeps the holds registered. -/
theorem Registered.claimed {answer} (hclaimed : Claimed turns teamId sender now next answer)
    (hrecorded : Recorded turns (.claim teamId sender now io)) : Registered next := by
  cases hclaimed with
  | refused | attached | ended => exact hregistered
  | unreported => exact hregistered.of_same (sameProcess_put _)
  | fresh hnone =>
    refine (hregistered.of_same (sameProcess_put _)).hold ?_
    intro entry hentry heq
    have hheld : entry.1 ∈ turns.held (teamId, sender.nonce) := mem_held.mpr (heq ▸ hentry)
    have hsome := hrecorded (ne_nil_of_mem hheld)
    rw [hnone] at hsome
    cases hsome
  | orphaned record hrecord hsender hstate hchannel =>
    refine hregistered.hold ?_
    intro entry hentry heq
    obtain ⟨channel, hsome, -⟩ := hregistered.channel entry hentry
    rw [heq, hchannel] at hsome
    cases hsome

/-- A step that meets the condition keeps the holds registered. -/
theorem Registered.stepped {call}
    (hstepped : Stepped turns call next) (hrecorded : Recorded turns call) : Registered next := by
  cases hstepped with
  | kept => exact hregistered
  | claimed hclaimed => exact hregistered.claimed hclaimed hrecorded
  | forgot | checkpointed | ended | settled => exact hregistered.of_same (sameProcess_put _)
  | announced hkey => exact hregistered.announce _ _
  | dropped hkey => exact hregistered.drop hkey
  | crashed =>
    constructor
    · intro entry hentry
      cases hentry
    · exact nodup_nil
    · intro entry hentry
      cases hentry

end

theorem registered_empty : Registered {} :=
  ⟨fun _ h => (not_mem_nil h).elim, nodup_nil, fun _ h => (not_mem_nil h).elim⟩

theorem Registered.held_le_one (hregistered : Registered turns) (key) : (turns.held key).length ≤ 1 := by
  unfold Turns.held
  rw [length_map]
  have hfiltered := (filter_sublist (p := fun entry : Nat × TurnKey => entry.2 == key)
    (l := turns.holds)).map Prod.snd |>.nodup hregistered.single
  have hconstant : ∀ other ∈ (turns.holds.filter fun entry => entry.2 == key).map Prod.snd,
      other = key := by
    intro other hother
    obtain ⟨entry, hentry, rfl⟩ := mem_map.mp hother
    simpa using (mem_filter.mp hentry).2
  rw [← length_map Prod.snd]
  rw [eq_replicate_of_mem hconstant] at hfiltered ⊢
  simpa [nodup_replicate] using hfiltered

/-- Registered holds: one execution of each turn, which its equal sends attach to. -/
theorem Registered.oneExecution (hregistered : Registered turns) (key) : OneExecution turns key where
  single := hregistered.held_le_one key
  taken := by
    intro hold hhold sender now io hnonce hrecorded
    obtain ⟨channel, hchannel, hnumber⟩ := hregistered.channel _ (mem_held.mp hhold)
    have hkey : (key.1, sender.nonce) = key := by rw [hnonce]
    have hclaimed := claim_claimed turns key.1 sender now io
    generalize (turns.claim key.1 sender now io).1 = after,
      (turns.claim key.1 sender now io).2 = answer at hclaimed ⊢
    cases hclaimed with
    | refused problem | unreported problem => exact .inr (.inr ⟨problem, rfl⟩)
    | ended record terminal => exact .inr (.inl ⟨terminal, rfl⟩)
    | fresh hnone =>
      have hsome := hrecorded (hkey.symm ▸ ne_nil_of_mem hhold)
      rw [hnone] at hsome
      cases hsome
    | attached record found hrecord hsender hstate hfound =>
      rw [hkey, hchannel] at hfound
      cases hfound
      exact .inl (by rw [hnumber])
    | orphaned record hrecord hsender hstate hfound =>
      rw [hkey, hchannel] at hfound
      cases hfound
  attaches := by
    intro hold hhold record now io hrecord hstate hnow hread
    obtain ⟨channel, hchannel, hnumber⟩ := hregistered.channel _ (mem_held.mp hhold)
    have hnonce : record.sender.nonce = key.2 := (find?_key_mem hrecord).2
    have hkey : (key.1, record.sender.nonce) = key := by rw [hnonce]
    have hlive : ¬ record.sender.grantDeadline ≤ now := not_le.mpr hnow
    simp only [Turns.claim, if_neg hlive, hread, hnonce, hrecord, Turns.existing, ne_eq,
      not_true_eq_false, if_false, hstate]
    rw [show turns.channel (key.1, key.2) = some channel from hchannel]
    exact congrArg (fun number => Except.ok (Claim.attached number)) hnumber

section

variable [Platform]

/-- In every run that claims a turn with a live hold only while its record is kept, each turn has one
execution at every moment, and every further equal send attaches to it. -/
theorem one_execution_of_recorded {calls : List TurnCall} (hrecorded : ∀ index call, calls[index]? = some call →
      Recorded (Turns.after (calls.take index)) call) (index : Nat) (key : TurnKey) :
    OneExecution (Turns.after (calls.take index)) key := by
  have hregistered : Registered (Turns.after (calls.take index)) :=
    Answering.after_take_invariant registered_empty
      (fun turns call hbefore hallowed => hbefore.stepped (step_stepped turns call) hallowed)
      hrecorded index
  exact hregistered.oneExecution key

end

attribute [local instance] Routines.constantHashPlatform

def sampleSender : Sender := ⟨"n", 0, "s", "b"⟩

def attachedRun : List TurnCall :=
  [.claim "t" sampleSender 0 {}, .recordEnd 0 ⟨200, .null⟩ {}, .claim "t" sampleSender 1 {}]

theorem one_execution_of_recorded_attached :
    (Turns.after (attachedRun.take 2)).held ("t", "n") = [0] ∧
      OneExecution (Turns.after (attachedRun.take 2)) ("t", "n") := by
  refine ⟨by decide, one_execution_of_recorded ?_ 2 ("t", "n")⟩
  intro index call hcall
  match index, hcall with
  | 0, rfl | 1, rfl | 2, rfl => decide

/-- A turn whose admission is refused: it is forgotten, sent again before its hold is dropped, and
the hold is dropped. -/
def forgottenRun : List TurnCall :=
  [.claim "t" sampleSender 0 {}, .forget 0 {}, .claim "t" sampleSender 1 {}, .drop 0]

/-- Two holds of one turn are live at once, and with the first dropped the second's turn is sent
again as left behind by another process, so a third hold runs beside it. -/
theorem forgotten_turn_runs_twice :
    (Turns.after (forgottenRun.take 3)).held ("t", "n") = [0, 1] ∧
      (Turns.after forgottenRun).held ("t", "n") = [1] ∧
      ((Turns.after forgottenRun).claim "t" sampleSender 2 {}).2 = .ok (.orphaned 2 none) := by
  refine ⟨by decide, by decide, ?_⟩
  rfl

end

variable {calls : List TurnCall} {key : TurnKey}
variable {checkpoint : Value}

def TurnCall.instant : TurnCall → Option Int
  | .claim _ _ now _ => some now
  | _ => none

/-- Instants never go back in the order the calls take effect. -/
def Forward (calls : List TurnCall) : Prop :=
  calls.Pairwise fun earlier later =>
    ∀ before ∈ earlier.instant, ∀ after ∈ later.instant, before ≤ after

instance : DecidablePred Forward := fun calls => inferInstanceAs (Decidable (calls.Pairwise _))

section

variable [Platform]

structure Claims (calls : List TurnCall) (key : TurnKey) (index : Nat) (sender : Sender) (now : Int)
    (answer : Except TurnProblem Claim) : Prop where
  nonce : sender.nonce = key.2
  answered : ∃ io, calls[index]? = some (.claim key.1 sender now io) ∧
    ((Turns.after (calls.take index)).claim key.1 sender now io).2 = answer

def Checkpoints (calls : List TurnCall) (key : TurnKey) (index : Nat) (sender : Sender) (checkpoint : Value) : Prop :=
  ∃ hold payload io, calls[index]? = some (.checkpoint hold payload io) ∧
    (Turns.after (calls.take index)).keyOf hold = some key ∧ checkpoint = .object payload ∧
    ∃ record, (Turns.after (calls.take (index + 1))).turn key = some record ∧
      record.sender = sender ∧ record.state = .running ∧ record.checkpoint = some checkpoint

def Ends (calls : List TurnCall) (key : TurnKey) (index : Nat) (sender : Sender) (terminal : Terminal) : Prop :=
  ∃ hold io, calls[index]? = some (.recordEnd hold terminal io) ∧
    (∃ record, (Turns.after (calls.take index)).turn key = some record ∧ record.state = .running) ∧
    ∃ record, (Turns.after (calls.take (index + 1))).turn key = some record ∧
      record.sender = sender ∧ record.state = .ended ∧ record.terminal = some terminal

def Settles (calls : List TurnCall) (key : TurnKey) (index : Nat) (sender : Sender) : Prop :=
  ∃ authority io, calls[index]? = some (.settle key.1 key.2 authority io) ∧
    ∃ record, (Turns.after (calls.take (index + 1))).turn key = some record ∧
      record.sender = sender ∧ record.state = .delivered

def ForgottenBetween (calls : List TurnCall) (key : TurnKey) (first second : Nat) : Prop :=
  ∃ index hold io, first < index ∧ index < second ∧ calls[index]? = some (.forget hold io) ∧
    (Turns.after (calls.take index)).keyOf hold = some key

def LatestCheckpoint (calls : List TurnCall) (key : TurnKey) (sender : Sender) (stop : Nat)
    (checkpoint : Value) : Prop :=
  ∃ last, last < stop ∧ Checkpoints calls key last sender checkpoint ∧
    ∀ later other, last < later → later < stop → ¬ Checkpoints calls key later sender other

end

structure GivenSafely [Platform] (calls : List TurnCall) (key : TurnKey) : Prop where
  /-- It is new once within its grant, unless it was forgotten in between. -/
  once : ∀ first second sender other before now hold again, first < second →
    Claims calls key first sender before (.ok (.fresh hold)) →
    Claims calls key second other now (.ok (.fresh again)) →
    now < sender.grantDeadline → ForgottenBetween calls key first second
  /-- Another session or another body never gets it. -/
  owner : ∀ first second sender other before now claim given, first < second →
    Claims calls key first sender before (.ok claim) →
    Claims calls key second other now (.ok given) →
    now < sender.grantDeadline → ¬ ForgottenBetween calls key first second → other = sender
  /-- An orphan resumes from its last durable checkpoint. -/
  resumed : ∀ index sender now hold checkpoint,
    Claims calls key index sender now (.ok (.orphaned hold (some checkpoint))) →
    LatestCheckpoint calls key sender index checkpoint
  /-- Once a checkpoint is durable, an orphan resumes from its start only where it was forgotten. -/
  restarted : ∀ first second sender other now hold checkpoint, first < second →
    Checkpoints calls key first sender checkpoint →
    Claims calls key second other now (.ok (.orphaned hold none)) →
    now < sender.grantDeadline → ForgottenBetween calls key first second
  ended : ∀ first second sender other now terminal answered, first < second →
    Ends calls key first sender terminal →
    Claims calls key second other now (.ok (.ended answered)) →
    now < sender.grantDeadline → answered = terminal
  /-- A settled turn is never run, resumed or answered again. -/
  settled : ∀ first second sender other now answer, first < second →
    Settles calls key first sender → Claims calls key second other now answer →
    now < sender.grantDeadline → ∃ problem, answer = .error problem
  /-- Its Team never holds more records than its bound. -/
  bounded : ∀ index, ((Turns.after (calls.take index)).files key.1).length ≤ maxTurns

section

variable [Platform]

theorem after_filed (calls teamId) : Filed ((Turns.after calls).files teamId) := by
  have hstart : ∀ teamId, Filed (({} : Turns).files teamId) := fun _ => ⟨nodup_nil, Nat.zero_le _⟩
  exact Answering.after_invariant (fun turns => ∀ teamId, Filed (turns.files teamId)) hstart
    (fun turns call hbefore => (step_stepped turns call).filed hbefore) calls teamId

theorem after_take_succ {index call} (hcall : calls[index]? = some call) :
    Turns.after (calls.take (index + 1)) = ((Turns.after (calls.take index)).step call).1 := by
  unfold Turns.after
  rw [take_add_one, hcall, Option.toList_some, Answering.after_append, Answering.after_singleton]

theorem moved_at {index call} (hcall : calls[index]? = some call) (key) :
    Moved (Turns.after (calls.take index)) key call ((Turns.after (calls.take index)).turn key)
      ((Turns.after (calls.take (index + 1))).turn key) := by
  rw [after_take_succ hcall]
  exact (step_stepped _ call).moved (after_filed _) key

end

section

variable [Platform] {index first second : Nat} {sender other : Sender} {now : Int} {answer : Except TurnProblem Claim}

theorem Claims.lt_length (hclaims : Claims calls key index sender now answer) : index < calls.length := by
  obtain ⟨io, hcall, -⟩ := hclaims.answered
  exact (List.getElem?_eq_some_iff.mp hcall).1

theorem Claims.claimed (hclaims : Claims calls key index sender now answer) :
    Claimed (Turns.after (calls.take index)) key.1 sender now (Turns.after (calls.take (index + 1))) answer := by
  obtain ⟨io, hcall, rfl⟩ := hclaims.answered
  rw [after_take_succ hcall]
  exact claim_claimed _ _ _ _ _

/-- Up to a send within a turn's grant, no claim is past the grant. -/
theorem Claims.within (hforward : Forward calls) (hclaims : Claims calls key second other now answer) {deadline}
    (hnow : now < deadline) {earlier} (hearlier : earlier < second) {teamId sender before io}
    (hcall : calls[earlier]? = some (.claim teamId sender before io)) : before < deadline := by
  obtain ⟨_, hlast, -⟩ := hclaims.answered
  obtain ⟨hfirst, hfirstCall⟩ := List.getElem?_eq_some_iff.mp hcall
  obtain ⟨hsecond, hsecondCall⟩ := List.getElem?_eq_some_iff.mp hlast
  have hle := List.pairwise_iff_getElem.mp hforward earlier second hfirst hsecond hearlier before
    (by rw [hfirstCall]; rfl) now (by rw [hsecondCall]; rfl)
  exact hle.trans_lt hnow

theorem Claims.turn_succ {claim} (hclaims : Claims calls key index sender now (.ok claim)) :
    ∃ record, (Turns.after (calls.take (index + 1))).turn key = some record ∧ record.sender = sender := by
  have hclaimed := hclaims.claimed
  have hnonce := hclaims.nonce
  have hfiled := after_filed (calls.take index) key.1
  generalize Turns.after (calls.take (index + 1)) = next at hclaimed ⊢
  cases hclaimed with
  | fresh hnone hnow hroom =>
    refine ⟨⟨sender, .running, none⟩, ?_, rfl⟩
    have hkept : ofNonce sender.nonce (granted ((Turns.after (calls.take index)).files key.1) now) =
        none := by
      refine (find?_filter_eq hfiled.distinct _).trans ?_
      rw [ofNonce] at hnone
      rw [hnone, Option.filter_none]
    refine (turn_put_self _ rfl).trans ?_
    rw [ofNonce_append, ← hnonce, hkept, Option.none_or, if_pos rfl]
  | attached record channel hrecord hsender | ended record terminal hrecord hsender
  | orphaned record hrecord hsender =>
    rw [hnonce] at hrecord
    exact ⟨record, hrecord, hsender⟩

inductive Answered (record : Record) : Claim → Prop where
  | attached (hold : Nat) (hstate : record.state = .running) : Answered record (.attached hold)
  | ended (terminal : Terminal) (hstate : record.state = .ended)
      (hterminal : record.terminal = some terminal) : Answered record (.ended terminal)
  | orphaned (hold : Nat) (hstate : record.state = .running) :
      Answered record (.orphaned hold record.checkpoint)

theorem Claims.of_turn {claim} (hclaims : Claims calls key index sender now (.ok claim))
    {record} (hturn : (Turns.after (calls.take index)).turn key = some record) :
    record.sender = sender ∧ Answered record claim := by
  have hclaimed := hclaims.claimed
  unfold Turns.turn at hturn
  rw [← hclaims.nonce] at hturn
  generalize Turns.after (calls.take (index + 1)) = next at hclaimed
  cases hclaimed with
  | fresh hnone =>
    rw [hturn] at hnone
    cases hnone
  | attached found channel hrecord hsender hstate =>
    obtain rfl := Option.some.inj (hturn.symm.trans hrecord)
    exact ⟨hsender, .attached _ hstate⟩
  | ended found terminal hrecord hsender hstate hterminal =>
    obtain rfl := Option.some.inj (hturn.symm.trans hrecord)
    exact ⟨hsender, .ended terminal hstate hterminal⟩
  | orphaned found hrecord hsender hstate =>
    obtain rfl := Option.some.inj (hturn.symm.trans hrecord)
    exact ⟨hsender, .orphaned _ hstate⟩

theorem Claims.orphaned {hold checkpoint}
    (hclaims : Claims calls key index sender now (.ok (.orphaned hold checkpoint))) :
    ∃ record, (Turns.after (calls.take index)).turn key = some record ∧ record.sender = sender ∧
      record.state = .running ∧ record.checkpoint = checkpoint := by
  have hclaimed := hclaims.claimed
  have hnonce := hclaims.nonce
  generalize Turns.after (calls.take (index + 1)) = next at hclaimed
  cases hclaimed with
  | orphaned record hrecord hsender hstate =>
    rw [hnonce] at hrecord
    exact ⟨record, hrecord, hsender, hstate, rfl⟩

section

variable (hforward : Forward calls) (hclaims : Claims calls key second other now answer)
  (hnow : now < sender.grantDeadline) (hfirst : first < second)

include hforward hclaims hnow hfirst

/-- What each step keeps of a recorded turn holds through its grant, unless it is forgotten. -/
theorem granted_follows (kept : Record → Prop) (hsender : ∀ record, kept record → record.sender = sender)
    (hquiet : ¬ ForgottenBetween calls key first second ∨ ∀ record, kept record → record.state ≠ .running)
    (hstep : ∀ turns call before after, Moved turns key call (some before) (some after) → kept before → kept after)
    (hturn : ∃ record, (Turns.after (calls.take (first + 1))).turn key = some record ∧ kept record) :
    ∃ record, (Turns.after (calls.take second)).turn key = some record ∧ kept record := by
  have hlength := hclaims.lt_length
  have hall : ∀ stop, first + 1 ≤ stop → stop ≤ second →
      ∃ record, (Turns.after (calls.take stop)).turn key = some record ∧ kept record := by
    intro stop hle
    induction stop, hle using Nat.le_induction with
    | base => exact fun _ => hturn
    | succ stop hle ih =>
      intro hstop
      obtain ⟨before, hbefore, hkept⟩ := ih (Nat.le_of_succ_le hstop)
      have hcall : calls[stop]? = some calls[stop] := getElem?_eq_getElem (by omega)
      have hmoved := moved_at hcall key
      rw [hbefore] at hmoved
      generalize calls[stop] = call at hcall hmoved
      generalize (Turns.after (calls.take (stop + 1))).turn key = after at hmoved ⊢
      have hkeeps := hstep (Turns.after (calls.take stop)) call before
      cases hmoved with
      | kept => exact ⟨before, rfl, hkept⟩
      | outlived hexpired =>
        have hlive := hclaims.within hforward hnow hstop hcall
        rw [hsender before hkept] at hexpired
        exact absurd hexpired (not_le.mpr hlive)
      | forgotten hkey hstate =>
        rcases hquiet with hquiet | hstopped
        · exact absurd ⟨stop, _, _, hle, hstop, hcall, hkey⟩ hquiet
        · exact absurd hstate (hstopped before hkept)
      | checkpointed hkey hstate => exact ⟨_, rfl, hkeeps _ (.checkpointed hkey hstate) hkept⟩
      | ended hkey hstate => exact ⟨_, rfl, hkeeps _ (.ended hkey hstate) hkept⟩
      | settled => exact ⟨_, rfl, hkeeps _ .settled hkept⟩
  exact hall second hfirst le_rfl

/-- A recorded turn that no longer runs only goes on to its tombstone. -/
theorem closed_follows (closed : Record → Prop) (hstopped : ∀ record, closed record → record.state ≠ .running)
    (hsettled : ∀ record, closed record → closed { record with state := .delivered, sealed := none })
    (hturn : ∃ record, (Turns.after (calls.take (first + 1))).turn key = some record ∧
      record.sender = sender ∧ closed record) :
    ∃ record, (Turns.after (calls.take second)).turn key = some record ∧ record.sender = sender ∧ closed record := by
  refine granted_follows hforward hclaims hnow hfirst
    (fun record => record.sender = sender ∧ closed record) (fun _ => And.left)
    (.inr fun record hkept => hstopped record hkept.2) ?_ hturn
  rintro turns call before after hmoved ⟨hsender, hclosed⟩
  refine ⟨hmoved.sender_eq.trans hsender, ?_⟩
  cases hmoved with
  | kept => exact hclosed
  | checkpointed hkey hstate | ended hkey hstate => exact absurd hstate (hstopped before hclosed)
  | settled => exact hsettled before hclosed

/-- Once a checkpoint is durable, a running turn that is not forgotten has one through its grant. -/
theorem checkpoint_follows (hcheckpoint : Checkpoints calls key first sender checkpoint)
    (hquiet : ¬ ForgottenBetween calls key first second) :
    ∃ record, (Turns.after (calls.take second)).turn key = some record ∧ record.sender = sender ∧
      (record.state = .running → record.checkpoint ≠ none) := by
  refine granted_follows hforward hclaims hnow hfirst (fun record => record.sender = sender ∧
    (record.state = .running → record.checkpoint ≠ none)) (fun _ => And.left) (.inl hquiet) ?_ ?_
  · rintro turns call before after hmoved ⟨hsender, hheld⟩
    refine ⟨hmoved.sender_eq.trans hsender, ?_⟩
    cases hmoved with
    | kept => exact hheld
    | checkpointed => exact fun _ => nofun
    | ended | settled => nofun
  · obtain ⟨hold, payload, io, -, -, -, record, hturn, hsender, -, hvalue⟩ := hcheckpoint
    refine ⟨record, hturn, hsender, fun _ => ?_⟩
    rw [hvalue]
    nofun

end

theorem LatestCheckpoint.here (hmade : Checkpoints calls key index sender checkpoint) :
    LatestCheckpoint calls key sender (index + 1) checkpoint := by
  refine ⟨index, Nat.lt_succ_self index, hmade, ?_⟩
  intro later other hlater hstop
  omega

theorem LatestCheckpoint.next (hlatest : LatestCheckpoint calls key sender index checkpoint)
    (hnone : ∀ other, ¬ Checkpoints calls key index sender other) :
    LatestCheckpoint calls key sender (index + 1) checkpoint := by
  obtain ⟨last, hlast, hmade, hlatest⟩ := hlatest
  refine ⟨last, Nat.lt_succ_of_lt hlast, hmade, ?_⟩
  intro later other hlater hstop
  rcases Nat.lt_succ_iff_lt_or_eq.mp hstop with hbetween | rfl
  · exact hlatest later other hlater hbetween
  · exact hnone other

/-- A running turn's record holds the checkpoint made durable last. -/
theorem latestCheckpoint_of_turn (hindex : index ≤ calls.length) {record}
    (hturn : (Turns.after (calls.take index)).turn key = some record)
    (hstate : record.state = .running) (hcheckpoint : record.checkpoint = some checkpoint) :
    LatestCheckpoint calls key record.sender index checkpoint := by
  induction index generalizing record checkpoint with
  | zero => cases hturn
  | succ index ih =>
    have hcall : calls[index]? = some calls[index] := getElem?_eq_getElem hindex
    have hmoved := moved_at hcall key
    -- a checkpoint made durable here is the record's; without one the record's stays the latest
    by_cases hmade : ∃ value, Checkpoints calls key index record.sender value
    · obtain ⟨value, hvalue⟩ := hmade
      obtain ⟨-, -, -, -, -, -, stored, hstored, -, -, hheld⟩ := id hvalue
      obtain rfl := Option.some.inj (hturn.symm.trans hstored)
      obtain rfl := Option.some.inj (hcheckpoint.symm.trans hheld)
      exact .here hvalue
    · refine LatestCheckpoint.next ?_ (not_exists.mp hmade)
      generalize hbefore : (Turns.after (calls.take index)).turn key = before at hmoved
      generalize hafter : (Turns.after (calls.take (index + 1))).turn key = after at hmoved
      generalize calls[index] = call at hcall hmoved
      obtain rfl := hafter.symm.trans hturn
      cases hmoved with
      | kept => exact ih (Nat.le_of_succ_le hindex) hbefore hstate hcheckpoint
      | recorded => cases hcheckpoint
      | checkpointed hkey hrunning =>
        exact absurd ⟨_, _, _, _, hcall, hkey, rfl, _, hturn, rfl, hstate, rfl⟩ hmade
      | ended | settled => cases hstate

end

attribute [local instance] Routines.constantHashPlatform

def crashedRun : List TurnCall :=
  [.claim "t" ⟨"n", 0, "s", "b"⟩ 0 {}, .checkpoint 0 [("a", .null)] { write := .landed }, .crash,
    .claim "t" ⟨"n", 0, "s", "b"⟩ 5 {}]

end ShimpzTeams.Chat
