import StackMachine.Machine

/-!
The walk over a program that every target language shares. It gives the pieces of the target's
source in order: an opening, one arm for each instruction, an arm for every other position, and a
closing. Jump targets are resolved here, once, so an arm holds a position or a sure fault.
-/

namespace StackMachine.Render

set_option autoImplicit false

/-- What an arm does. The opcode of an action belongs to the action's class in every walk, but the
type admits any, and a target refuses those it cannot write. -/
inductive Action where
  | halt
  | pushConst (value : Word) (next : Int)
  | loadInput (index : Word) (mode : InputMode) (next : Int)
  | binary (opcode : Opcode) (next : Int)
  | unary (opcode : Opcode) (next : Int)
  | stack (opcode : Opcode) (next : Int)
  | jump (target : Option Int)
  | branch (opcode : Opcode) (target : Option Int) (next : Int)
deriving DecidableEq, Repr

/-- A piece of the target's source. -/
inductive Piece where
  | opening (name : Text) (program : Program)
  | arm (pc : Int) (first : Bool)
  | otherArm (first : Bool)
  | endArm
  | closing
  | action (action : Action)
deriving DecidableEq, Repr

/-- An opcode outside the class of its action, with the class that refuses it. -/
inductive Misfit where
  | binary (opcode : Opcode)
  | unary (opcode : Opcode)
  | stack (opcode : Opcode)
  | branch (opcode : Opcode)
deriving DecidableEq, Repr

def Misfit.message : Misfit → Text
  | .binary opcode => "emitBinary: unexpected opcode '" ++ opcode.mnemonic ++ "'"
  | .unary opcode => "emitUnary: unexpected opcode '" ++ opcode.mnemonic ++ "'"
  | .stack opcode => "emitStackOp: unexpected opcode '" ++ opcode.mnemonic ++ "'"
  | .branch opcode => "emitBranch: unexpected opcode '" ++ opcode.mnemonic ++ "'"

/-- The action of an instruction at position `pc`. -/
def Action.ofInstr (program : Program) (pc : Nat) (instr : Instr) : Action :=
  let next : Int := pc + 1
  let resolve (target : Word) : Option Int :=
    (program.jumpMode.resolve? program.length target).map fun position => position
  match instr with
  | .halt => .halt
  | .pushConst value => .pushConst value next
  | .loadInput index => .loadInput index program.inputMode next
  | .binary op => .binary (.binary op) next
  | .unary op => .unary (.unary op) next
  | .stack op => .stack (.stack op) next
  | .jump target => .jump (resolve target)
  | .branch condition target => .branch (.branch condition) (resolve target) next

/-- The arms of the instructions from position `pc` on. -/
def arms (program : Program) (pc : Nat) : List Instr → List Piece
  | [] => []
  | instr :: rest =>
      .arm pc (pc == 0) :: .action (.ofInstr program pc instr) :: .endArm ::
        arms program (pc + 1) rest

def walk (name : Text) (program : Program) : List Piece :=
  .opening name program :: arms program 0 program.code ++
    [.otherArm (program.length == 0), .action .halt, .endArm, .closing]

end StackMachine.Render
