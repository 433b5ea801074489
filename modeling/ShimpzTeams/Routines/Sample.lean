import ShimpzTeams.Routines.Steps

/-!
# A concrete platform

One zone without transitions, and one-step Routines. The runs that show a
result's hypotheses to be met, or a property to fail, are made of these.
-/

namespace ShimpzTeams.Routines

open StrictJson Protocol Library

variable {byte : UInt8} {value : Routine}

/-- A platform whose only zone is UTC. Its hash is a polynomial one, and its text tables and its
doubles are trivial. -/
@[reducible]
def utcPlatform : Platform where
  Zone := Unit
  utc := ()
  zoneGet := fun name => if name == "UTC" then some () else none
  civilAt := fun _ instant =>
    let date := ordToYmd (instant / 86400 + 719163)
    some (date.year, date.month, date.day)
  instantOf := fun _ civil hour minute =>
    some ((ymdToOrd civil.1 civil.2.1 civil.2.2 - 719163) * 86400 + hour * 3600 + minute * 60)
  sha256 := fun bytes =>
    let sum := bytes.foldl (fun sum byte => sum * 257 + byte.toNat + 1) 0
    Vector.ofFn fun index : Fin 32 => UInt8.ofNat (sum / 256 ^ index.val)
  category := fun _ => "Ll"
  isNfc := fun _ => true
  lower := id
  toUppercase := fun character => [character]
  formatExp := fun _ => "0e0"
  parseFloat := fun _ => some 0
  searchStops := fun _ => false

/-- The same platform with a constant hash, for plans whose digest only has to be one. -/
@[reducible]
def constantHashPlatform : Platform :=
  { utcPlatform with sha256 := fun _ => Vector.replicate 32 0 }

def draw (byte : UInt8) : Entropy := ⟨some (Vector.replicate 16 byte), some (Vector.replicate 32 byte)⟩

def drawnId (byte : UInt8) : String := hex (List.replicate 16 byte)

def drawnToken (byte : UInt8) : String := String.ofList (base64 (List.replicate 32 byte))

/-- A SHA-256 that stands for a key, an incarnation, or a network. -/
def zeros : String := "0000000000000000000000000000000000000000000000000000000000000000"

def zeroPin : String := "sha256:" ++ zeros

def sampleStep : Value :=
  objectOf [("id", text "a"), ("assistant", text "a"), ("action", text "a"), ("pin", text zeroPin),
    ("input", objectOf [])]

def sampleRoutine (byte : UInt8) (schedule : Value) (anchor first : Int) : Routine where
  routineId := drawnId byte
  name := "a"
  schedule := schedule
  assistants := [("a", zeroPin)]
  plan := objectOf [("version", int 4), ("timezone", text "UTC"), ("steps", .array [sampleStep]),
    ("output", objectOf [("mode", text "none"), ("step", .null)])]
  anchor := anchor
  nextRunAt := first
  description := "a"
  confirmation := some (objectOf [("proposal_id", text (drawnId byte)),
    ("proposal_digest", text zeroPin), ("principal", text (drawnId byte)),
    ("incarnation", text zeros), ("confirmed_at", int 1)])
  permitted := [objectOf [("assistant", text "a"), ("action", text "a"), ("pin", text zeroPin),
    ("read_only", .bool true), ("stored_inputs", .array [])]]

def every (gap : Int) : Value := objectOf [("kind", text "continuous"), ("gap", int gap)]

/-- The lease a draw's token proves under the sample key. -/
def drawnLease (byte : UInt8) : Lease := ⟨@leaseSha256 utcPlatform (drawnToken byte), zeros⟩

variable {now : Int}

section

variable [Platform]

/-- A Team's state right after the creation of its first Routine. -/
def createdState (byte : UInt8) (value : Routine) (now : Int) : TeamRoutines :=
  { routines := [admittedForm value 1],
    notices := [(createdNotice (drawnId byte) value now none []).named (admittedForm value 1)] }

theorem apply_create (h : Added {} value) :
    apply {} ⟨.create value now none [], draw byte⟩ = .ok (createdState byte value now) := by
  have hdetail : exactDetail "created" (objectOf [("steps", .array [])]) = true := rfl
  have hput : Publishable { routines := [admittedForm value 1] }
      (createdNotice (drawnId byte) value now none []) :=
    ⟨hdetail, le_rfl, by simp [maxUndeliveredNotices, maxRoutineNotices, maxRoutines]⟩
  have hroutine : routine { routines := [admittedForm value 1] } value.routineId =
      .ok (admittedForm value 1) := by
    rw [routine_eq_ok]
    simp [admittedForm, definedForm]
  have hadd : addRoutine {} value = .ok { routines := [admittedForm value 1] } := addRoutine_eq_ok.mpr ⟨h, rfl⟩
  have hid : newId (draw byte) = .ok (drawnId byte) := newId_eq_ok.mpr ⟨_, rfl, rfl⟩
  refine bind_eq_ok.mpr ⟨_, hadd, bind_eq_ok.mpr ⟨_, hid, ?_⟩⟩
  exact (putNotice_eq_ok rfl).mpr ⟨_, hroutine, hput, rfl⟩

theorem applied_create (h : Added {} value) (rest : List Call) :
    applied apply {} (⟨.create value now none [], draw byte⟩ :: rest) = ({}, ⟨.create value now none [], draw byte⟩) ::
        applied apply (createdState byte value now) rest := by
  rw [applied, apply_create h]

theorem after_create (h : Added {} value) (rest : List Call) :
    after (⟨.create value now none [], draw byte⟩ :: rest) = runFrom apply (createdState byte value now) rest := by
  unfold after
  rw [runFrom_cons, step_ok (apply_create h)]

end

attribute [local instance] utcPlatform

def everyMinute : Routine := sampleRoutine 1 (every 60) 1000 1000

theorem everyMinute_defined : Defined everyMinute 1 := by
  constructor
  · decide +kernel
  · decide +kernel

theorem everyMinute_first : firstRun (definedForm everyMinute 1) = .ok everyMinute.nextRunAt := by
  decide

theorem everyMinute_budgets : budgets [] (admittedForm everyMinute 1) = .ok () := by
  decide +kernel

theorem everyMinute_added : Added {} everyMinute :=
  ⟨everyMinute_defined, everyMinute_first, fun _ hitem => (nomatch hitem), by decide, everyMinute_budgets⟩

def createMinute : Call := ⟨.create everyMinute 1000 none [], draw 1⟩

def minuteState : TeamRoutines := createdState 1 everyMinute 1000

theorem after_createMinute (rest : List Call) : after (createMinute :: rest) = runFrom apply minuteState rest :=
  after_create everyMinute_added rest

theorem applied_createMinute (rest : List Call) :
    applied apply {} (createMinute :: rest) = ({}, createMinute) :: applied apply minuteState rest :=
  applied_create everyMinute_added rest

end ShimpzTeams.Routines
