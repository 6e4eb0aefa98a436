import ChipEight.Machine.Tick

/-!
# Operations

An `Operation` is anything that can be asked of a machine from outside: to run an instruction, to
access the bus, to load a program, to take a key event.  `Machine.respond` carries one out;
`Machine.after` is the machine after a row of operations, whatever faults they met on the way.
-/

namespace ChipEight

/-- What can be asked of a machine.  Either a program is loaded and started, or only its image or
the glyphs are put into memory; a `tick` is a `step` that also lowers the timers; `blit` is given
its rows and `draw` finds them in memory. -/
inductive Operation where
  | load (image : Array Byte)
  | loadImage (image : Array Byte)
  | loadGlyphs
  | tick (noise : Byte)
  | step (noise : Byte)
  | lowerTimers
  | perform (noise : Byte) (i : Instruction)
  | read (address : Word)
  | readWord (address : Word)
  | write (address : Word) (byte : Byte)
  | setReg (x : Nibble) (byte : Byte)
  | pointTo (target : Word)
  | goTo (target : Word)
  | press (key : Nibble)
  | release
  | clear
  | blit (x y : Byte) (rows : List Byte)
  | draw (x y : Byte) (address : Word) (height : Nat)
  | drain
deriving Repr, DecidableEq

/-- What an operation answers when it has met no fault.  A drawing tells whether a lit pixel went
dark; of a sprite that is too tall nothing was drawn. -/
inductive Reply where
  | done
  | byte (byte : Byte)
  | word (word : Word)
  | drawn (erased : Bool)
  | tooTall
deriving Repr, DecidableEq

/-- The end of an operation. -/
structure Response (σ : Type) extends Outcome σ where
  reply : Reply
deriving Repr, DecidableEq

namespace Response

variable {σ τ : Type}

/-- An operation that left `s` and answered. -/
def answer (s : σ) (reply : Reply) : Response σ := ⟨.success s, reply⟩

/-- An operation that met a fault and left `s`. -/
def refusal (s : σ) (f : Fault) : Response σ := ⟨.failure s f, .done⟩

/-- An operation that answers nothing but that it was done. -/
def ofOutcome (o : Outcome σ) : Response σ := ⟨o, .done⟩

/-- An operation that only looks at `s`. -/
def ofExcept (s : σ) : Except Fault Reply → Response σ
  | .ok reply => answer s reply
  | .error f => refusal s f

/-- The same ending, with the state looked at through `f`. -/
def map (f : σ → τ) (r : Response σ) : Response τ := ⟨r.toOutcome.map f, r.reply⟩

@[simp] theorem map_answer (f : σ → τ) (s : σ) (reply : Reply) :
    (answer s reply).map f = answer (f s) reply := rfl

@[simp] theorem map_ofOutcome (f : σ → τ) (o : Outcome σ) :
    (ofOutcome o).map f = ofOutcome (o.map f) := rfl

theorem map_ofExcept (f : σ → τ) (s : σ) (e : Except Fault Reply) :
    (ofExcept s e).map f = ofExcept (f s) e := by
  cases e <;> rfl

end Response

namespace Machine

/-- The machine with a display that was drained. -/
def settled (m : Machine) : Machine :=
  m.withBus { m.bus with display := m.bus.display.drain.2 }

/-- Carries out an operation. -/
def respond (m : Machine) : Operation → Response Machine
  | .load image => .ofOutcome (.ofExcept m (m.loadProgram image))
  | .loadImage image =>
    .ofOutcome (.ofExcept m ((m.bus.loadProgram image).map fun b => m.withBus b))
  | .loadGlyphs => .answer (m.withBus m.bus.loadGlyphs) .done
  | .tick noise => .ofOutcome (m.tick noise)
  | .step noise => .ofOutcome (m.step noise)
  | .lowerTimers => .answer m.lowerTimers .done
  | .perform noise i => .ofOutcome (m.perform noise i)
  | .read address => .ofExcept m ((m.bus.read address).map Reply.byte)
  | .readWord address => .ofExcept m ((m.bus.readWord address).map Reply.word)
  | .write address byte =>
    .ofOutcome (.ofExcept m ((m.bus.write address byte).map fun b => m.withBus b))
  | .setReg x byte => .answer (m.setReg x byte) .done
  | .pointTo target => .answer (m.pointTo target) .done
  | .goTo target => .answer (m.goTo target) .done
  | .press key => .answer (m.press key) .done
  | .release => .answer m.release .done
  | .clear => .answer (m.withBus m.bus.clear) .done
  | .blit x y rows =>
    let drawn := m.bus.display.blit x y rows
    .answer (m.withBus { m.bus with display := drawn.1 }) (.drawn drawn.2)
  | .draw x y address height =>
    match m.bus.drawLimited? x y address height with
    | .error f => .refusal m f
    | .ok none => .answer m .tooTall
    | .ok (some (b, erased)) => .answer (m.withBus b) (.drawn erased)
  | .drain => .answer m.settled .done

/-- The machine after operations, one after the other. -/
def after (m : Machine) (ops : List Operation) : Machine :=
  ops.foldl (fun m op => (m.respond op).value) m

@[simp] theorem after_cons (m : Machine) (op : Operation) (ops : List Operation) :
    m.after (op :: ops) = (m.respond op).value.after ops := rfl

end Machine

end ChipEight
