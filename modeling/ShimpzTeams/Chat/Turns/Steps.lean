import ShimpzTeams.Library.Keyed
import ShimpzTeams.Protocol.Json
import ShimpzTeams.Protocol.Value
import ShimpzTeams.Library.Answering

/-!
# Durable chat turns

Each turn a person sends is recorded under its send's nonce before it runs. It
is running with its latest checkpoint, then ended with its terminal, then a
tombstone. A hold is the running turn's registration in this process: it is
memory only and a crash loses it. Every step is one critical section of the
store, and seen from one turn it records it, replaces its checkpoint, ends it,
settles it, forgets it, or leaves it as it is.
-/

namespace ShimpzTeams.Chat

open StrictJson Protocol Library

/-- The most turns one Team keeps within their grants. -/
def maxTurns : Nat := 256

/-- How long a turn's authority lasts from its send. -/
def grantSeconds : Int := 3000

def maxPlaintextBytes : Nat := 512 * 1024

structure Terminal where
  status : UInt16
  body : Value

/-- Who sent a turn and what: the session it was admitted under and the digest of its exact body. -/
structure Sender where
  nonce : String
  /-- When it was sent, in seconds. -/
  issuedAt : Int
  authority : String
  body : String
  deriving DecidableEq

/-- When the turn's authority ends, in seconds, within what an `i64` holds. -/
def Sender.grantDeadline (sender : Sender) : Int :=
  min (sender.issuedAt + grantSeconds) (2 ^ 63 - 1)

/-- How far a recorded turn is. -/
inductive TurnState where
  | running
  | ended
  | delivered
  deriving DecidableEq

/-- What a turn's sealed part holds. -/
structure Content where
  checkpoint : Option Value := none
  terminal : Option Terminal := none

structure Record where
  sender : Sender
  state : TurnState
  sealed : Option Content

/-- Why a call of the store is refused. -/
inductive TurnProblem where
  | unavailable
  | tooLarge
  | full
  | expired
  | authority
  | changed
  | delivered
  | unknown
  deriving DecidableEq

/-- What becomes of one write: it is done, or it fails, and a failed one may have landed. -/
inductive Write where
  | done
  | landed
  | lost
  deriving DecidableEq

/-- How the file and the keyring behave during one call. -/
structure Io where
  readable : Bool := true
  /-- Whether a part can be sealed or opened. -/
  keyring : Bool := true
  write : Write := .done

/-- A Team and a send's nonce. -/
abbrev TurnKey := String × String

structure Channel where
  key : TurnKey
  hold : Nat
  terminal : Option Terminal

structure Turns where
  files : String → List Record := fun _ => []
  /-- The turns running in this process, each with its channel. -/
  running : List Channel := []
  holds : List (Nat × TurnKey) := []
  nextHold : Nat := 0

/-- What a send of a turn comes to. -/
inductive Claim where
  /-- A new turn: it runs now. -/
  | fresh (hold : Nat)
  /-- The same turn runs in this process: its terminal once it ends. -/
  | attached (hold : Nat)
  /-- The same turn ended: its kept terminal again. -/
  | ended (terminal : Terminal)
  /-- The turn a previous process left running: it resumes from its checkpoint. -/
  | orphaned (hold : Nat) (checkpoint : Option Value)

def Turns.read (turns : Turns) (teamId : String) (io : Io) : Except TurnProblem (List Record) :=
  if teamIdRe teamId && io.readable then .ok (turns.files teamId) else .error .unavailable

def Turns.put (turns : Turns) (teamId : String) (records : List Record) : Turns :=
  { turns with files := fun other => if other = teamId then records else turns.files other }

def Write.lands : Write → Bool
  | .lost => false
  | _ => true

def Turns.write (turns : Turns) (teamId : String) (records : List Record) (io : Io) : Turns × Except TurnProblem Unit :=
  (if io.write.lands then turns.put teamId records else turns,
    if io.write = .done then .ok () else .error .unavailable)

def ofNonce (nonce : String) (records : List Record) : Option Record :=
  records.find? fun record => record.sender.nonce == nonce

def replaceRecord (updated : Record) (records : List Record) : List Record :=
  replaceFirst (fun record => record.sender.nonce) updated records

def sealContent [Platform] (content : Content) (io : Io) : Except TurnProblem (Option Content) :=
  if content.checkpoint.isNone && content.terminal.isNone then .ok none
  else
    let plaintext := objectOf [("checkpoint", content.checkpoint.getD .null),
      ("terminal", (content.terminal.map fun terminal =>
        objectOf [("status", int terminal.status.toNat), ("body", terminal.body)]).getD .null)]
    if maxPlaintextBytes < (dumps plaintext ⟨true, false, true⟩).utf8ByteSize then .error .tooLarge
    else if !io.keyring then .error .unavailable
    else .ok (some content)

def openContent (record : Record) (io : Io) : Except TurnProblem Content :=
  match record.sealed with
  | none => .ok {}
  | some content =>
    if io.keyring then
      .ok { content with checkpoint := content.checkpoint.filter fun value => !isNull value }
    else .error .unavailable

def room (records : List Record) (now : Int) : Except TurnProblem (List Record) :=
  let kept := records.filter fun record => decide (now < record.sender.grantDeadline)
  if maxTurns ≤ kept.length then .error .full else .ok kept

section

def Turns.hold (turns : Turns) (key : TurnKey) : Turns × Nat :=
  ({ turns with
      running := (turns.running.filter fun channel => channel.key != key) ++ [⟨key, turns.nextHold, none⟩]
      holds := turns.holds ++ [(turns.nextHold, key)]
      nextHold := turns.nextHold + 1 },
    turns.nextHold)

def Turns.channel (turns : Turns) (key : TurnKey) : Option Channel :=
  turns.running.find? fun channel => channel.key == key

def Turns.existing (turns : Turns) (teamId : String) (record : Record) (sender : Sender) (io : Io) :
    Turns × Except TurnProblem Claim :=
  if record.sender.authority ≠ sender.authority then (turns, .error .authority)
  else if record.sender ≠ sender then (turns, .error .changed)
  else
    match record.state with
    | .delivered => (turns, .error .delivered)
    | .ended =>
      (turns, match openContent record io with
        | .error problem => .error problem
        | .ok content =>
          match content.terminal with
          | some terminal => .ok (.ended terminal)
          | none => .error .unavailable)
    | .running =>
      match turns.channel (teamId, sender.nonce) with
      | some channel => (turns, .ok (.attached channel.hold))
      | none =>
        match openContent record io with
        | .error problem => (turns, .error problem)
        | .ok content =>
          let held := turns.hold (teamId, sender.nonce)
          (held.1, .ok (.orphaned held.2 content.checkpoint))

/-- Admits one send of a turn at an instant: a new turn is recorded running before anything of it
runs. -/
def Turns.claim (turns : Turns) (teamId : String) (sender : Sender) (now : Int) (io : Io) :
    Turns × Except TurnProblem Claim :=
  if sender.grantDeadline ≤ now then (turns, .error .expired)
  else
    match turns.read teamId io with
    | .error problem => (turns, .error problem)
    | .ok records =>
      match ofNonce sender.nonce records with
      | some record => turns.existing teamId record sender io
      | none =>
        match room records now with
        | .error problem => (turns, .error problem)
        | .ok kept =>
          let written := turns.write teamId (kept ++ [⟨sender, .running, none⟩]) io
          match written.2 with
          | .error problem => (written.1, .error problem)
          | .ok () =>
            let held := written.1.hold (teamId, sender.nonce)
            (held.1, .ok (.fresh held.2))

/-- Forgets a turn that ran nothing, so the same send may be admitted later. -/
def Turns.forget (turns : Turns) (key : TurnKey) (io : Io) : Turns × Except TurnProblem Unit :=
  match turns.read key.1 io with
  | .error problem => (turns, .error problem)
  | .ok records =>
    turns.write key.1 (records.filter fun record =>
      record.sender.nonce != key.2 || record.state != .running) io

/-- `end`, as far as it is announced: the terminal handed to every attached send. -/
def Turns.announce (turns : Turns) (key : TurnKey) (terminal : Terminal) : Turns :=
  { turns with
    running := turns.running.map fun channel =>
      if channel.key = key then { channel with terminal := some terminal } else channel }

/-- Settles a turn as delivered or revoked: only a tombstone is kept. Whether it ran in this process,
and the checkpoint it held. -/
def Turns.settle (turns : Turns) (teamId nonce authority : String) (io : Io) :
    Turns × Except TurnProblem (Bool × Option Value) :=
  match turns.read teamId io with
  | .error problem => (turns, .error problem)
  | .ok records =>
    match ofNonce nonce records with
    | none => (turns, .error .unknown)
    | some record =>
      if record.sender.authority ≠ authority then (turns, .error .authority)
      else
        match (if record.state = .running then (openContent record io).map Content.checkpoint else .ok none) with
        | .error problem => (turns, .error problem)
        | .ok checkpoint =>
          let written := turns.write teamId
            (replaceRecord { record with state := .delivered, sealed := none } records) io
          (written.1, written.2.map fun _ =>
            (decide (record.state = .running) && (turns.channel (teamId, nonce)).isSome, checkpoint))

def Turns.drop (turns : Turns) (hold : Nat) (key : TurnKey) : Turns :=
  { turns with
    running := turns.running.filter fun channel => channel.key != key
    holds := turns.holds.filter fun entry => entry.1 != hold }

variable [Platform]

def Turns.checkpoint (turns : Turns) (key : TurnKey) (checkpoint : Value) (io : Io) : Turns × Except TurnProblem Unit :=
  match turns.read key.1 io with
  | .error problem => (turns, .error problem)
  | .ok records =>
    match ofNonce key.2 records with
    | none => (turns, .error .unavailable)
    | some record =>
      if record.state ≠ .running then (turns, .error .unavailable)
      else
        match sealContent { checkpoint := some checkpoint } io with
        | .error problem => (turns, .error problem)
        | .ok content =>
          turns.write key.1 (replaceRecord { record with sealed := content } records) io

/-- `end`, as far as it is recorded: the turn's terminal, kept until it is acknowledged. -/
def Turns.recordEnd (turns : Turns) (key : TurnKey) (terminal : Terminal) (io : Io) : Turns × Except TurnProblem Unit :=
  match turns.read key.1 io with
  | .error problem => (turns, .error problem)
  | .ok records =>
    match ofNonce key.2 records with
    | none => (turns, .error .unavailable)
    | some record =>
      -- revoked meanwhile: nothing of it is delivered
      if record.state ≠ .running then (turns, .ok ())
      else
        match sealContent { terminal := some terminal } io with
        | .error problem => (turns, .error problem)
        | .ok content =>
          turns.write key.1
            (replaceRecord { record with state := .ended, sealed := content } records) io

end

/-- One critical section of the store, or a crash. A hold is used only while it is not dropped. -/
inductive TurnCall where
  | claim (teamId : String) (sender : Sender) (now : Int) (io : Io)
  | forget (hold : Nat) (io : Io)
  /-- A checkpoint is an object of the pending turn and its undelivered batch. -/
  | checkpoint (hold : Nat) (payload : List (String × Value)) (io : Io)
  | recordEnd (hold : Nat) (terminal : Terminal) (io : Io)
  | announce (hold : Nat) (terminal : Terminal)
  | settle (teamId nonce authority : String) (io : Io)
  | drop (hold : Nat)
  | crash

inductive TurnAnswer where
  | claimed (claim : Except TurnProblem Claim)
  | done (result : Except TurnProblem Unit)
  | settled (result : Except TurnProblem (Bool × Option Value))
  /-- The call names no hold of this process. -/
  | none

def Turns.keyOf (turns : Turns) (hold : Nat) : Option TurnKey :=
  (turns.holds.find? fun entry => entry.1 == hold).map Prod.snd

section

variable [Platform]

def Turns.step (turns : Turns) : TurnCall → Turns × TurnAnswer
  | .claim teamId sender now io =>
    let claimed := turns.claim teamId sender now io
    (claimed.1, .claimed claimed.2)
  | .forget hold io =>
    match turns.keyOf hold with
    | some key => ((turns.forget key io).1, .done (turns.forget key io).2)
    | none => (turns, .none)
  | .checkpoint hold payload io =>
    match turns.keyOf hold with
    | some key =>
      ((turns.checkpoint key (.object payload) io).1, .done (turns.checkpoint key (.object payload) io).2)
    | none => (turns, .none)
  | .recordEnd hold terminal io =>
    match turns.keyOf hold with
    | some key => ((turns.recordEnd key terminal io).1, .done (turns.recordEnd key terminal io).2)
    | none => (turns, .none)
  | .announce hold terminal =>
    match turns.keyOf hold with
    | some key => (turns.announce key terminal, .done (.ok ()))
    | none => (turns, .none)
  | .settle teamId nonce authority io =>
    let settled := turns.settle teamId nonce authority io
    (settled.1, .settled settled.2)
  | .drop hold =>
    match turns.keyOf hold with
    | some key => (turns.drop hold key, .done (.ok ()))
    | none => (turns, .none)
  | .crash => ({ turns with running := [], holds := [] }, .done (.ok ()))

end

section

variable {turns : Turns} {teamId : String} {io : Io}

/-- The checkpoint a stored turn resumes from. -/
def Record.checkpoint (record : Record) : Option Value :=
  record.sealed.bind fun content => content.checkpoint.filter fun value => !isNull value

/-- The terminal a stored turn answers. -/
def Record.terminal (record : Record) : Option Terminal := record.sealed.bind Content.terminal

/-- The stored turns within their grant at an instant. -/
def granted (records : List Record) (now : Int) : List Record :=
  records.filter fun record => decide (now < record.sender.grantDeadline)

inductive Claimed (turns : Turns) (teamId : String) (sender : Sender) (now : Int) :
    Turns → Except TurnProblem Claim → Prop where
  | refused (problem : TurnProblem) : Claimed turns teamId sender now turns (.error problem)
  /-- The turn is recorded by a write that is not reported done. -/
  | unreported (problem : TurnProblem) (hnone : ofNonce sender.nonce (turns.files teamId) = none)
      (hnow : now < sender.grantDeadline)
      (hroom : (granted (turns.files teamId) now).length < maxTurns) :
      Claimed turns teamId sender now
        (turns.put teamId (granted (turns.files teamId) now ++ [⟨sender, .running, none⟩]))
        (.error problem)
  | fresh (hnone : ofNonce sender.nonce (turns.files teamId) = none)
      (hnow : now < sender.grantDeadline)
      (hroom : (granted (turns.files teamId) now).length < maxTurns) :
      Claimed turns teamId sender now
        ((turns.put teamId (granted (turns.files teamId) now ++ [⟨sender, .running, none⟩])).hold
          (teamId, sender.nonce)).1
        (.ok (.fresh turns.nextHold))
  | attached (record : Record) (channel : Channel)
      (hrecord : ofNonce sender.nonce (turns.files teamId) = some record)
      (hsender : record.sender = sender) (hstate : record.state = .running)
      (hchannel : turns.channel (teamId, sender.nonce) = some channel) :
      Claimed turns teamId sender now turns (.ok (.attached channel.hold))
  | ended (record : Record) (terminal : Terminal)
      (hrecord : ofNonce sender.nonce (turns.files teamId) = some record)
      (hsender : record.sender = sender) (hstate : record.state = .ended)
      (hterminal : record.terminal = some terminal) :
      Claimed turns teamId sender now turns (.ok (.ended terminal))
  | orphaned (record : Record) (hrecord : ofNonce sender.nonce (turns.files teamId) = some record)
      (hsender : record.sender = sender) (hstate : record.state = .running)
      (hchannel : turns.channel (teamId, sender.nonce) = none) :
      Claimed turns teamId sender now (turns.hold (teamId, sender.nonce)).1
        (.ok (.orphaned turns.nextHold record.checkpoint))

variable {content : Content}

theorem openContent_ok {record} (h : openContent record io = .ok content) :
    content.checkpoint = record.checkpoint ∧ content.terminal = record.terminal := by
  unfold openContent at h
  unfold Record.checkpoint Record.terminal
  cases hsealed : record.sealed with
  | none =>
    rw [hsealed] at h
    cases h
    exact ⟨rfl, rfl⟩
  | some sealed =>
    simp only [hsealed] at h
    split_ifs at h
    cases h
    exact ⟨rfl, rfl⟩

theorem read_ok {records} (h : turns.read teamId io = .ok records) : turns.files teamId = records := by
  unfold Turns.read at h
  split_ifs at h
  exact Except.ok.inj h

theorem existing_claimed {sender now record} (hrecord : ofNonce sender.nonce (turns.files teamId) = some record) :
    Claimed turns teamId sender now (turns.existing teamId record sender io).1
      (turns.existing teamId record sender io).2 := by
  unfold Turns.existing
  split_ifs with hauthority hchanged
  · exact .refused _
  · exact .refused _
  · have hsender : record.sender = sender := not_not.mp hchanged
    cases hstate : record.state with
    | delivered => exact .refused _
    | ended =>
      cases hopen : openContent record io with
      | error problem => exact .refused _
      | ok content =>
        simp only []
        cases hterminal : content.terminal with
        | none => exact .refused _
        | some terminal =>
          exact .ended record terminal hrecord hsender hstate
            ((openContent_ok hopen).2 ▸ hterminal)
    | running =>
      cases hchannel : turns.channel (teamId, sender.nonce) with
      | some channel => exact .attached record channel hrecord hsender hstate hchannel
      | none =>
        cases hopen : openContent record io with
        | error problem => exact .refused _
        | ok content =>
          simp only []
          rw [(openContent_ok hopen).1]
          exact .orphaned record hrecord hsender hstate hchannel

theorem claim_claimed (turns teamId sender now io) :
    Claimed turns teamId sender now (turns.claim teamId sender now io).1 (turns.claim teamId sender now io).2 := by
  unfold Turns.claim
  split_ifs with hexpired
  · exact .refused _
  · have hnow : now < sender.grantDeadline := not_le.mp hexpired
    cases hread : turns.read teamId io with
    | error problem => exact .refused _
    | ok records =>
      obtain rfl := read_ok hread
      simp only []
      cases hrecord : ofNonce sender.nonce (turns.files teamId) with
      | some record => exact existing_claimed hrecord
      | none =>
        simp only []
        cases hroom : room (turns.files teamId) now with
        | error problem => exact .refused _
        | ok kept =>
          unfold room at hroom
          simp only [] at hroom
          split_ifs at hroom with hfull
          cases hroom
          have hroom : (granted (turns.files teamId) now).length < maxTurns := not_le.mp hfull
          simp only [Turns.write]
          cases hwrite : io.write with
          | done => exact .fresh hrecord hnow hroom
          | landed => exact .unreported _ hrecord hnow hroom
          | lost => exact .refused _

inductive Stepped (turns : Turns) : TurnCall → Turns → Prop where
  | kept (call : TurnCall) : Stepped turns call turns
  | claimed {teamId sender now io next answer} (hclaimed : Claimed turns teamId sender now next answer) :
      Stepped turns (.claim teamId sender now io) next
  | forgot {hold io key} (hkey : turns.keyOf hold = some key) :
      Stepped turns (.forget hold io) (turns.put key.1 ((turns.files key.1).filter fun record =>
          record.sender.nonce != key.2 || record.state != .running))
  | checkpointed {hold payload io key record} (hkey : turns.keyOf hold = some key)
      (hrecord : ofNonce key.2 (turns.files key.1) = some record) (hstate : record.state = .running) :
      Stepped turns (.checkpoint hold payload io) (turns.put key.1 (replaceRecord
          { record with sealed := some { checkpoint := some (.object payload) } } (turns.files key.1)))
  | ended {hold terminal io key record} (hkey : turns.keyOf hold = some key)
      (hrecord : ofNonce key.2 (turns.files key.1) = some record) (hstate : record.state = .running) :
      Stepped turns (.recordEnd hold terminal io) (turns.put key.1 (replaceRecord
          { record with state := .ended, sealed := some { terminal := some terminal } }
          (turns.files key.1)))
  | announced {hold terminal key} (hkey : turns.keyOf hold = some key) :
      Stepped turns (.announce hold terminal) (turns.announce key terminal)
  | settled {teamId nonce authority io record}
      (hrecord : ofNonce nonce (turns.files teamId) = some record)
      (hauthority : record.sender.authority = authority) :
      Stepped turns (.settle teamId nonce authority io)
        (turns.put teamId (replaceRecord { record with state := .delivered, sealed := none } (turns.files teamId)))
  | dropped {hold key} (hkey : turns.keyOf hold = some key) :
      Stepped turns (.drop hold) (turns.drop hold key)
  | crashed : Stepped turns .crash { turns with running := [], holds := [] }

/-- A write leaves the store as it was, or replaces the Team's turns. -/
theorem write_cases (turns : Turns) (teamId records io) :
    (turns.write teamId records io).1 = turns ∨ (turns.write teamId records io).1 = turns.put teamId records := by
  unfold Turns.write
  cases io.write.lands
  · exact .inl rfl
  · exact .inr rfl

variable [Platform]

theorem sealContent_ok {sealed} (hheld : (content.checkpoint.isNone && content.terminal.isNone) = false)
    (h : sealContent content io = .ok sealed) : sealed = some content := by
  unfold sealContent at h
  simp only [hheld, Bool.false_eq_true, if_false] at h
  split_ifs at h
  exact (Except.ok.inj h).symm

omit [Platform] in
theorem forget_cases (key : TurnKey) :
    (turns.forget key io).1 = turns ∨
      (turns.forget key io).1 = turns.put key.1 ((turns.files key.1).filter fun record =>
        record.sender.nonce != key.2 || record.state != .running) := by
  unfold Turns.forget
  cases hread : turns.read key.1 io with
  | error problem => exact .inl rfl
  | ok records =>
    obtain rfl := read_ok hread
    exact write_cases turns key.1 _ io

theorem checkpoint_cases (key : TurnKey) (checkpoint) : (turns.checkpoint key checkpoint io).1 = turns ∨
      ∃ record, ofNonce key.2 (turns.files key.1) = some record ∧ record.state = .running ∧
        (turns.checkpoint key checkpoint io).1 = turns.put key.1
          (replaceRecord { record with sealed := some { checkpoint := some checkpoint } } (turns.files key.1)) := by
  unfold Turns.checkpoint
  cases hread : turns.read key.1 io with
  | error problem => exact .inl rfl
  | ok records =>
    obtain rfl := read_ok hread
    simp only []
    cases hrecord : ofNonce key.2 (turns.files key.1) with
    | none => exact .inl rfl
    | some record =>
      simp only []
      split_ifs with hstate
      · exact .inl rfl
      · cases hsealed : sealContent { checkpoint := some checkpoint } io with
        | error problem => exact .inl rfl
        | ok content =>
          obtain rfl := sealContent_ok rfl hsealed
          exact (write_cases turns key.1 _ io).imp_right fun h =>
            ⟨record, rfl, not_not.mp hstate, h⟩

theorem recordEnd_cases (key : TurnKey) (terminal) : (turns.recordEnd key terminal io).1 = turns ∨
      ∃ record, ofNonce key.2 (turns.files key.1) = some record ∧ record.state = .running ∧
        (turns.recordEnd key terminal io).1 = turns.put key.1
          (replaceRecord { record with state := .ended, sealed := some { terminal := some terminal } }
            (turns.files key.1)) := by
  unfold Turns.recordEnd
  cases hread : turns.read key.1 io with
  | error problem => exact .inl rfl
  | ok records =>
    obtain rfl := read_ok hread
    simp only []
    cases hrecord : ofNonce key.2 (turns.files key.1) with
    | none => exact .inl rfl
    | some record =>
      simp only []
      split_ifs with hstate
      · exact .inl rfl
      · cases hsealed : sealContent { terminal := some terminal } io with
        | error problem => exact .inl rfl
        | ok content =>
          obtain rfl := sealContent_ok rfl hsealed
          exact (write_cases turns key.1 _ io).imp_right fun h =>
            ⟨record, rfl, not_not.mp hstate, h⟩

omit [Platform] in
theorem settle_cases (nonce authority : String) : (turns.settle teamId nonce authority io).1 = turns ∨
      ∃ record, ofNonce nonce (turns.files teamId) = some record ∧ record.sender.authority = authority ∧
        (turns.settle teamId nonce authority io).1 = turns.put teamId
          (replaceRecord { record with state := .delivered, sealed := none } (turns.files teamId)) := by
  unfold Turns.settle
  cases hread : turns.read teamId io with
  | error problem => exact .inl rfl
  | ok records =>
    obtain rfl := read_ok hread
    simp only []
    cases hrecord : ofNonce nonce (turns.files teamId) with
    | none => exact .inl rfl
    | some record =>
      simp only []
      split_ifs with hauthority hstate
      · exact .inl rfl
      · cases (openContent record io).map Content.checkpoint with
        | error problem => exact .inl rfl
        | ok checkpoint =>
          exact (write_cases turns teamId _ io).imp_right fun h =>
            ⟨record, rfl, not_not.mp hauthority, h⟩
      · exact (write_cases turns teamId _ io).imp_right fun h =>
          ⟨record, rfl, not_not.mp hauthority, h⟩

theorem step_stepped (turns call) : Stepped turns call (turns.step call).1 := by
  cases call with
  | claim teamId sender now io => exact .claimed (claim_claimed turns teamId sender now io)
  | forget hold io =>
    cases hkey : turns.keyOf hold with
    | none => simpa only [Turns.step, hkey] using .kept _
    | some key =>
      simp only [Turns.step, hkey]
      rcases forget_cases key with h | h <;> rw [h]
      · exact .kept _
      · exact .forgot hkey
  | checkpoint hold payload io =>
    cases hkey : turns.keyOf hold with
    | none => simpa only [Turns.step, hkey] using .kept _
    | some key =>
      simp only [Turns.step, hkey]
      rcases checkpoint_cases key (.object payload) with h | ⟨record, hrecord, hstate, h⟩ <;> rw [h]
      · exact .kept _
      · exact .checkpointed hkey hrecord hstate
  | recordEnd hold terminal io =>
    cases hkey : turns.keyOf hold with
    | none => simpa only [Turns.step, hkey] using .kept _
    | some key =>
      simp only [Turns.step, hkey]
      rcases recordEnd_cases key terminal with h | ⟨record, hrecord, hstate, h⟩ <;> rw [h]
      · exact .kept _
      · exact .ended hkey hrecord hstate
  | announce hold terminal =>
    cases hkey : turns.keyOf hold with
    | none => simpa only [Turns.step, hkey] using .kept _
    | some key => simpa only [Turns.step, hkey] using .announced hkey
  | settle teamId nonce authority io =>
    simp only [Turns.step]
    rcases settle_cases nonce authority with h | ⟨record, hrecord, hauthority, h⟩ <;> rw [h]
    · exact .kept _
    · exact .settled hrecord hauthority
  | drop hold =>
    cases hkey : turns.keyOf hold with
    | none => simpa only [Turns.step, hkey] using .kept _
    | some key => simpa only [Turns.step, hkey] using .dropped hkey
  | crash => exact .crashed

/-- The store after some calls of a process that starts with nothing recorded. -/
def Turns.after (calls : List TurnCall) : Turns := Answering.after Turns.step {} calls

end

open List

variable {turns next : Turns} {key : TurnKey}
variable {teamId : String} {records : List Record} {record : Record}

def Turns.turn (turns : Turns) (key : TurnKey) : Option Record := ofNonce key.2 (turns.files key.1)

structure Filed (records : List Record) : Prop where
  distinct : (records.map fun record => record.sender.nonce).Nodup
  bounded : records.length ≤ maxTurns

@[simp]
theorem files_put_self (turns : Turns) (teamId records) : (turns.put teamId records).files teamId = records :=
  if_pos rfl

theorem files_put_ne (turns : Turns) {other} (records) (hne : other ≠ teamId) :
    (turns.put teamId records).files other = turns.files other :=
  if_neg hne

/-- The files of every Team, where one Team's are replaced. -/
theorem forall_files_put {holds : List Record → Prop} (hbefore : ∀ teamId, holds (turns.files teamId))
    (hnew : holds records) (other) : holds ((turns.put teamId records).files other) := by
  by_cases heq : other = teamId
  · rw [heq, files_put_self]
    exact hnew
  · rw [files_put_ne turns records heq]
    exact hbefore other

theorem Filed.filter (hfiled : Filed records) (keep) : Filed (records.filter keep) where
  distinct := (filter_sublist.map _).nodup hfiled.distinct
  bounded := (length_filter_le keep records).trans hfiled.bounded

theorem Filed.replaceRecord (hfiled : Filed records) (updated) : Filed (replaceRecord updated records) where
  distinct := by
    unfold Chat.replaceRecord
    rw [map_key_replaceFirst]
    exact hfiled.distinct
  bounded := by
    unfold Chat.replaceRecord
    rw [length_replaceFirst]
    exact hfiled.bounded

theorem Filed.append (hfiled : Filed records) (hnew : ofNonce record.sender.nonce records = none)
    (hroom : records.length < maxTurns) : Filed (records ++ [record]) where
  distinct := by
    rw [map_append, map_cons, map_nil]
    refine nodup_append.mpr ⟨hfiled.distinct, nodup_singleton _, ?_⟩
    rintro nonce hnonce _ hlast rfl
    obtain ⟨other, hother, hsame⟩ := mem_map.mp hnonce
    exact find?_key_eq_none hnew hother (hsame.trans (mem_singleton.mp hlast))
  bounded := by
    rw [length_append]
    exact hroom

inductive Moved (turns : Turns) (key : TurnKey) : TurnCall → Option Record → Option Record → Prop where
  | kept (call : TurnCall) (record : Option Record) : Moved turns key call record record
  | recorded {sender now io} (hnonce : sender.nonce = key.2) (hnow : now < sender.grantDeadline) :
      Moved turns key (.claim key.1 sender now io) none (some ⟨sender, .running, none⟩)
  /-- A claim of another turn made room after this turn's grant. -/
  | outlived {sender now io record} (hexpired : record.sender.grantDeadline ≤ now) :
      Moved turns key (.claim key.1 sender now io) (some record) none
  | forgotten {hold io record} (hkey : turns.keyOf hold = some key)
      (hstate : record.state = .running) : Moved turns key (.forget hold io) (some record) none
  | checkpointed {hold payload io record}
      (hkey : turns.keyOf hold = some key) (hstate : record.state = .running) :
      Moved turns key (.checkpoint hold payload io) (some record)
        (some { record with sealed := some { checkpoint := some (.object payload) } })
  | ended {hold terminal io record}
      (hkey : turns.keyOf hold = some key) (hstate : record.state = .running) :
      Moved turns key (.recordEnd hold terminal io) (some record)
        (some { record with state := .ended, sealed := some { terminal := some terminal } })
  | settled {io record} :
      Moved turns key (.settle key.1 key.2 record.sender.authority io) (some record)
        (some { record with state := .delivered, sealed := none })

variable {call : TurnCall}

theorem Moved.sender_eq {turns before after}
    (h : Moved turns key call (some before) (some after)) : after.sender = before.sender := by
  cases h <;> rfl

theorem turn_put_self (records : List Record) (hteam : key.1 = teamId) :
    (turns.put teamId records).turn key = ofNonce key.2 records := by
  unfold Turns.turn
  rw [hteam, files_put_self]

theorem turn_put_ne (records : List Record) (hne : key.1 ≠ teamId) :
    (turns.put teamId records).turn key = turns.turn key := by
  unfold Turns.turn
  rw [files_put_ne turns records hne]

theorem ofNonce_replaceRecord {sealed nonce other state} (hrecord : ofNonce nonce records = some record) :
    ofNonce other (replaceRecord ⟨record.sender, state, sealed⟩ records) =
      if other = nonce then some ⟨record.sender, state, sealed⟩ else ofNonce other records := by
  have hnonce : record.sender.nonce = nonce := (find?_key_mem hrecord).2
  split_ifs with heq
  · subst heq
    exact find?_replaceFirst_self hrecord hnonce
  · refine find?_replaceFirst_ne ?_
    rw [hnonce]
    exact Ne.symm heq

theorem ofNonce_append (nonce records record) : ofNonce nonce (records ++ [record]) =
      (ofNonce nonce records).or (if record.sender.nonce = nonce then some record else none) := by
  unfold ofNonce
  rw [find?_append]
  by_cases h : record.sender.nonce = nonce <;> simp [h]

theorem turn_put_replaceRecord {sealed nonce state} (hrecord : ofNonce nonce (turns.files teamId) = some record) :
    (turns.put teamId (replaceRecord ⟨record.sender, state, sealed⟩ (turns.files teamId))).turn key =
      if key = (teamId, nonce) then some ⟨record.sender, state, sealed⟩ else turns.turn key := by
  by_cases hteam : key.1 = teamId
  · subst hteam
    rw [turn_put_self _ rfl, ofNonce_replaceRecord hrecord]
    simp [Turns.turn, Prod.ext_iff]
  · rw [turn_put_ne _ hteam, if_neg]
    intro heq
    exact hteam (congrArg Prod.fst heq)

/-- A new turn's record, with those of its Team whose grant ended removed. -/
theorem moved_recorded {sender now io} (hfiled : Filed (turns.files teamId))
    (hnone : ofNonce sender.nonce (turns.files teamId) = none) (hnow : now < sender.grantDeadline) :
    Moved turns key (.claim teamId sender now io) (turns.turn key)
      ((turns.put teamId (granted (turns.files teamId) now ++ [⟨sender, .running, none⟩])).turn key) := by
  by_cases hteam : key.1 = teamId
  · subst hteam
    rw [turn_put_self _ rfl, ofNonce_append]
    have hkept : ofNonce key.2 (granted (turns.files key.1) now) =
        (turns.turn key).filter fun record =>
          decide (now < record.sender.grantDeadline) :=
      find?_filter_eq hfiled.distinct _
    simp only []
    rw [hkept]
    cases hturn : turns.turn key with
    | none =>
      rw [Option.filter_none, Option.none_or]
      split_ifs with hnonce
      · exact .recorded hnonce hnow
      · exact .kept _ _
    | some record =>
      have hnonce : sender.nonce ≠ key.2 := by
        intro hsame
        rw [hsame] at hnone
        cases hturn.symm.trans hnone
      rw [if_neg hnonce, Option.or_none]
      by_cases hlive : now < record.sender.grantDeadline
      · rw [Option.filter_some_pos (by simpa using hlive)]
        exact .kept _ _
      · rw [Option.filter_some_neg (by simpa using hlive)]
        exact .outlived (not_lt.mp hlive)
  · rw [turn_put_ne _ hteam]
    exact .kept _ _

theorem Stepped.moved (hfiled : ∀ teamId, Filed (turns.files teamId)) (hstepped : Stepped turns call next) (key) :
    Moved turns key call (turns.turn key) (next.turn key) := by
  cases hstepped with
  | kept | announced | dropped | crashed => exact .kept _ _
  | claimed hclaimed =>
    cases hclaimed with
    | refused | attached | ended | orphaned => exact .kept _ _
    | unreported problem hnone hnow | fresh hnone hnow => exact moved_recorded (hfiled _) hnone hnow
  | @forgot hold io other hkey =>
    by_cases hteam : key.1 = other.1
    · have hkept : (turns.put other.1 ((turns.files other.1).filter fun record =>
          record.sender.nonce != other.2 || record.state != .running)).turn key =
          (turns.turn key).filter fun record =>
            record.sender.nonce != other.2 || record.state != .running := by
        rw [turn_put_self _ hteam, ← hteam]
        exact find?_filter_eq (hfiled _).distinct _
      rw [hkept]
      cases hturn : turns.turn key with
      | none => exact .kept _ _
      | some record =>
        have hnonce : record.sender.nonce = key.2 := (find?_key_mem hturn).2
        by_cases hkeep : (record.sender.nonce != other.2 || record.state != .running) = true
        · rw [Option.filter_some, if_pos hkeep]
          exact .kept _ _
        · rw [Option.filter_some, if_neg hkeep]
          simp only [Bool.or_eq_true, bne_iff_ne, not_or, ne_eq, not_not] at hkeep
          have hsame : other = key := Prod.ext hteam.symm (hkeep.1.symm.trans hnonce)
          exact .forgotten (hsame ▸ hkey) hkeep.2
    · rw [turn_put_ne _ hteam]
      exact .kept _ _
  | checkpointed hkey hrecord hstate =>
    rw [turn_put_replaceRecord hrecord]
    split_ifs with hsame
    · subst hsame
      rw [show turns.turn _ = some _ from hrecord]
      exact .checkpointed hkey hstate
    · exact .kept _ _
  | ended hkey hrecord hstate =>
    rw [turn_put_replaceRecord hrecord]
    split_ifs with hsame
    · subst hsame
      rw [show turns.turn _ = some _ from hrecord]
      exact .ended hkey hstate
    · exact .kept _ _
  | @settled teamId nonce authority io record hrecord hauthority =>
    rw [turn_put_replaceRecord hrecord]
    split_ifs with hsame
    · subst hsame hauthority
      rw [show turns.turn (teamId, nonce) = some record from hrecord]
      exact .settled
    · exact .kept _ _

/-- Every step keeps each Team's records distinct and bounded. -/
theorem Stepped.filed (hstepped : Stepped turns call next)
    (hfiled : ∀ teamId, Filed (turns.files teamId)) : ∀ teamId, Filed (next.files teamId) := by
  cases hstepped with
  | kept | announced | dropped | crashed => exact hfiled
  | @claimed teamId sender now io next answer hclaimed =>
    have hadded (hnone : ofNonce sender.nonce (turns.files teamId) = none)
        (hroom : (granted (turns.files teamId) now).length < maxTurns) :
        Filed (granted (turns.files teamId) now ++ [⟨sender, .running, none⟩]) := by
      refine ((hfiled teamId).filter _).append ?_ hroom
      have hkept : ofNonce sender.nonce (granted (turns.files teamId) now) = _ :=
        find?_filter_eq (hfiled teamId).distinct _
      rw [ofNonce] at hnone
      rw [hnone] at hkept
      exact hkept
    cases hclaimed with
    | refused | attached | ended | orphaned => exact hfiled
    | unreported problem hnone hnow hroom | fresh hnone hnow hroom =>
      exact forall_files_put hfiled (hadded hnone hroom)
  | forgot => exact forall_files_put hfiled ((hfiled _).filter _)
  | checkpointed | ended | settled => exact forall_files_put hfiled ((hfiled _).replaceRecord _)

end ShimpzTeams.Chat
