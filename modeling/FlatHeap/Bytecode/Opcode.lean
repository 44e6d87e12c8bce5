/-!
# Source opcodes

The instruction set of the stack bytecode being compiled, with its standard encodings.  An opcode
takes one byte, or two of which the first is `0xfe`.  Everything the decoder, the assembler and the
messages need to know about an opcode is one row of `Opcode.row`: its number, its mnemonic and the
shape of the operand that follows it.
-/

namespace FlatHeap.Bytecode

inductive OperandKind where
  | none
  /-- Argument index contained in the opcode. -/
  | implicitArg (n : Nat)
  /-- Local index contained in the opcode. -/
  | implicitLocal (n : Nat)
  /-- Integer contained in the opcode. -/
  | implicitInt (v : Int)
  | argShort
  | arg
  | localShort
  | localIndex
  | intShort
  | int32
  | int64
  | single
  | double
  | branchShort
  | branch
  /-- A count and that many four-byte displacements. -/
  | switch
  | typeToken
  | fieldToken
  | methodToken
  | stringToken
deriving DecidableEq, Repr

namespace OperandKind

def size? : OperandKind → Option Nat
  | none | implicitArg _ | implicitLocal _ | implicitInt _ => some 0
  | argShort | localShort | intShort | branchShort => some 1
  | arg | localIndex => some 2
  | int32 | single | branch | typeToken | fieldToken | methodToken | stringToken => some 4
  | int64 | double => some 8
  | switch => Option.none

def describe : OperandKind → String
  | none => "None"
  | implicitArg n => s!"ImplicitArg({n})"
  | implicitLocal n => s!"ImplicitLocal({n})"
  | implicitInt v => s!"ImplicitInt({v})"
  | argShort => "ArgShort"
  | arg => "Arg"
  | localShort => "LocalShort"
  | localIndex => "Local"
  | intShort => "IntShort"
  | int32 => "Int32"
  | int64 => "Int64"
  | single => "Float32"
  | double => "Float64"
  | branchShort => "BranchShort"
  | branch => "Branch"
  | switch => "Switch"
  | typeToken => "TypeToken"
  | fieldToken => "FieldToken"
  | methodToken => "MethodToken"
  | stringToken => "StringToken"

end OperandKind

structure OpcodeRow where
  /-- Number; two-byte opcodes have `0xfe` above their second byte. -/
  code : Nat
  mnemonic : String
  operand : OperandKind

/-- Opcodes, in the order of their numbers. -/
inductive Opcode where
  | nop | breakpoint | ldarg0 | ldarg1 | ldarg2 | ldarg3 | ldloc0 | ldloc1 | ldloc2 | ldloc3
  | stloc0 | stloc1 | stloc2 | stloc3 | ldargS | ldargaS | stargS | ldlocS | ldlocaS | stlocS
  | ldnull | ldcI4M1 | ldcI40 | ldcI41 | ldcI42 | ldcI43 | ldcI44 | ldcI45 | ldcI46 | ldcI47
  | ldcI48 | ldcI4S | ldcI4 | ldcI8 | ldcR4 | ldcR8 | dup | pop | call | ret | brS | brfalseS
  | brtrueS | beqS | bgeS | bgtS | bleS | bltS | bneUnS | bgeUnS | bgtUnS | bleUnS | bltUnS | br
  | brfalse | brtrue | beq | bge | bgt | ble | blt | bneUn | bgeUn | bgtUn | bleUn | bltUn
  | switch | ldindI1 | ldindU1 | ldindI2 | ldindU2 | ldindI4 | ldindU4 | ldindI8 | ldindR4
  | ldindR8 | ldindRef | stindRef | stindI1 | stindI2 | stindI4 | stindI8 | stindR4 | stindR8
  | add | sub | mul | div | divUn | rem | remUn | and | or | xor | shl | shr | shrUn | neg | not
  | convI1 | convI2 | convI4 | convI8 | convR4 | convR8 | convU4 | convU8 | callvirt | ldobj
  | ldstr | newobj | castclass | isinst | convRUn | unbox | throw | ldfld | ldflda | stfld
  | ldsfld | ldsflda | stsfld | stobj | box | newarr | ldlen | ldelema | ldelemI1 | ldelemU1
  | ldelemI2 | ldelemU2 | ldelemI4 | ldelemU4 | ldelemI8 | ldelemR4 | ldelemR8 | ldelemRef
  | stelemI1 | stelemI2 | stelemI4 | stelemI8 | stelemR4 | stelemR8 | stelemRef | ldelem | stelem
  | unboxAny | convU2 | convU1 | leave | leaveS | ceq | cgt | cgtUn | clt | cltUn | ldarg | ldarga
  | starg | ldloc | ldloca | stloc | initobj | constrained
deriving DecidableEq, Repr

namespace Opcode

def row : Opcode → OpcodeRow
  | nop => ⟨0x00, "nop", .none⟩
  | breakpoint => ⟨0x01, "break", .none⟩
  | ldarg0 => ⟨0x02, "ldarg.0", .implicitArg 0⟩
  | ldarg1 => ⟨0x03, "ldarg.1", .implicitArg 1⟩
  | ldarg2 => ⟨0x04, "ldarg.2", .implicitArg 2⟩
  | ldarg3 => ⟨0x05, "ldarg.3", .implicitArg 3⟩
  | ldloc0 => ⟨0x06, "ldloc.0", .implicitLocal 0⟩
  | ldloc1 => ⟨0x07, "ldloc.1", .implicitLocal 1⟩
  | ldloc2 => ⟨0x08, "ldloc.2", .implicitLocal 2⟩
  | ldloc3 => ⟨0x09, "ldloc.3", .implicitLocal 3⟩
  | stloc0 => ⟨0x0a, "stloc.0", .implicitLocal 0⟩
  | stloc1 => ⟨0x0b, "stloc.1", .implicitLocal 1⟩
  | stloc2 => ⟨0x0c, "stloc.2", .implicitLocal 2⟩
  | stloc3 => ⟨0x0d, "stloc.3", .implicitLocal 3⟩
  | ldargS => ⟨0x0e, "ldarg.s", .argShort⟩
  | ldargaS => ⟨0x0f, "ldarga.s", .argShort⟩
  | stargS => ⟨0x10, "starg.s", .argShort⟩
  | ldlocS => ⟨0x11, "ldloc.s", .localShort⟩
  | ldlocaS => ⟨0x12, "ldloca.s", .localShort⟩
  | stlocS => ⟨0x13, "stloc.s", .localShort⟩
  | ldnull => ⟨0x14, "ldnull", .none⟩
  | ldcI4M1 => ⟨0x15, "ldc.i4.m1", .implicitInt (-1)⟩
  | ldcI40 => ⟨0x16, "ldc.i4.0", .implicitInt 0⟩
  | ldcI41 => ⟨0x17, "ldc.i4.1", .implicitInt 1⟩
  | ldcI42 => ⟨0x18, "ldc.i4.2", .implicitInt 2⟩
  | ldcI43 => ⟨0x19, "ldc.i4.3", .implicitInt 3⟩
  | ldcI44 => ⟨0x1a, "ldc.i4.4", .implicitInt 4⟩
  | ldcI45 => ⟨0x1b, "ldc.i4.5", .implicitInt 5⟩
  | ldcI46 => ⟨0x1c, "ldc.i4.6", .implicitInt 6⟩
  | ldcI47 => ⟨0x1d, "ldc.i4.7", .implicitInt 7⟩
  | ldcI48 => ⟨0x1e, "ldc.i4.8", .implicitInt 8⟩
  | ldcI4S => ⟨0x1f, "ldc.i4.s", .intShort⟩
  | ldcI4 => ⟨0x20, "ldc.i4", .int32⟩
  | ldcI8 => ⟨0x21, "ldc.i8", .int64⟩
  | ldcR4 => ⟨0x22, "ldc.r4", .single⟩
  | ldcR8 => ⟨0x23, "ldc.r8", .double⟩
  | dup => ⟨0x25, "dup", .none⟩
  | pop => ⟨0x26, "pop", .none⟩
  | call => ⟨0x28, "call", .methodToken⟩
  | ret => ⟨0x2a, "ret", .none⟩
  | brS => ⟨0x2b, "br.s", .branchShort⟩
  | brfalseS => ⟨0x2c, "brfalse.s", .branchShort⟩
  | brtrueS => ⟨0x2d, "brtrue.s", .branchShort⟩
  | beqS => ⟨0x2e, "beq.s", .branchShort⟩
  | bgeS => ⟨0x2f, "bge.s", .branchShort⟩
  | bgtS => ⟨0x30, "bgt.s", .branchShort⟩
  | bleS => ⟨0x31, "ble.s", .branchShort⟩
  | bltS => ⟨0x32, "blt.s", .branchShort⟩
  | bneUnS => ⟨0x33, "bne.un.s", .branchShort⟩
  | bgeUnS => ⟨0x34, "bge.un.s", .branchShort⟩
  | bgtUnS => ⟨0x35, "bgt.un.s", .branchShort⟩
  | bleUnS => ⟨0x36, "ble.un.s", .branchShort⟩
  | bltUnS => ⟨0x37, "blt.un.s", .branchShort⟩
  | br => ⟨0x38, "br", .branch⟩
  | brfalse => ⟨0x39, "brfalse", .branch⟩
  | brtrue => ⟨0x3a, "brtrue", .branch⟩
  | beq => ⟨0x3b, "beq", .branch⟩
  | bge => ⟨0x3c, "bge", .branch⟩
  | bgt => ⟨0x3d, "bgt", .branch⟩
  | ble => ⟨0x3e, "ble", .branch⟩
  | blt => ⟨0x3f, "blt", .branch⟩
  | bneUn => ⟨0x40, "bne.un", .branch⟩
  | bgeUn => ⟨0x41, "bge.un", .branch⟩
  | bgtUn => ⟨0x42, "bgt.un", .branch⟩
  | bleUn => ⟨0x43, "ble.un", .branch⟩
  | bltUn => ⟨0x44, "blt.un", .branch⟩
  | switch => ⟨0x45, "switch", .switch⟩
  | ldindI1 => ⟨0x46, "ldind.i1", .none⟩
  | ldindU1 => ⟨0x47, "ldind.u1", .none⟩
  | ldindI2 => ⟨0x48, "ldind.i2", .none⟩
  | ldindU2 => ⟨0x49, "ldind.u2", .none⟩
  | ldindI4 => ⟨0x4a, "ldind.i4", .none⟩
  | ldindU4 => ⟨0x4b, "ldind.u4", .none⟩
  | ldindI8 => ⟨0x4c, "ldind.i8", .none⟩
  | ldindR4 => ⟨0x4e, "ldind.r4", .none⟩
  | ldindR8 => ⟨0x4f, "ldind.r8", .none⟩
  | ldindRef => ⟨0x50, "ldind.ref", .none⟩
  | stindRef => ⟨0x51, "stind.ref", .none⟩
  | stindI1 => ⟨0x52, "stind.i1", .none⟩
  | stindI2 => ⟨0x53, "stind.i2", .none⟩
  | stindI4 => ⟨0x54, "stind.i4", .none⟩
  | stindI8 => ⟨0x55, "stind.i8", .none⟩
  | stindR4 => ⟨0x56, "stind.r4", .none⟩
  | stindR8 => ⟨0x57, "stind.r8", .none⟩
  | add => ⟨0x58, "add", .none⟩
  | sub => ⟨0x59, "sub", .none⟩
  | mul => ⟨0x5a, "mul", .none⟩
  | div => ⟨0x5b, "div", .none⟩
  | divUn => ⟨0x5c, "div.un", .none⟩
  | rem => ⟨0x5d, "rem", .none⟩
  | remUn => ⟨0x5e, "rem.un", .none⟩
  | and => ⟨0x5f, "and", .none⟩
  | or => ⟨0x60, "or", .none⟩
  | xor => ⟨0x61, "xor", .none⟩
  | shl => ⟨0x62, "shl", .none⟩
  | shr => ⟨0x63, "shr", .none⟩
  | shrUn => ⟨0x64, "shr.un", .none⟩
  | neg => ⟨0x65, "neg", .none⟩
  | not => ⟨0x66, "not", .none⟩
  | convI1 => ⟨0x67, "conv.i1", .none⟩
  | convI2 => ⟨0x68, "conv.i2", .none⟩
  | convI4 => ⟨0x69, "conv.i4", .none⟩
  | convI8 => ⟨0x6a, "conv.i8", .none⟩
  | convR4 => ⟨0x6b, "conv.r4", .none⟩
  | convR8 => ⟨0x6c, "conv.r8", .none⟩
  | convU4 => ⟨0x6d, "conv.u4", .none⟩
  | convU8 => ⟨0x6e, "conv.u8", .none⟩
  | callvirt => ⟨0x6f, "callvirt", .methodToken⟩
  | ldobj => ⟨0x71, "ldobj", .typeToken⟩
  | ldstr => ⟨0x72, "ldstr", .stringToken⟩
  | newobj => ⟨0x73, "newobj", .methodToken⟩
  | castclass => ⟨0x74, "castclass", .typeToken⟩
  | isinst => ⟨0x75, "isinst", .typeToken⟩
  | convRUn => ⟨0x76, "conv.r.un", .none⟩
  | unbox => ⟨0x79, "unbox", .typeToken⟩
  | throw => ⟨0x7a, "throw", .none⟩
  | ldfld => ⟨0x7b, "ldfld", .fieldToken⟩
  | ldflda => ⟨0x7c, "ldflda", .fieldToken⟩
  | stfld => ⟨0x7d, "stfld", .fieldToken⟩
  | ldsfld => ⟨0x7e, "ldsfld", .fieldToken⟩
  | ldsflda => ⟨0x7f, "ldsflda", .fieldToken⟩
  | stsfld => ⟨0x80, "stsfld", .fieldToken⟩
  | stobj => ⟨0x81, "stobj", .typeToken⟩
  | box => ⟨0x8c, "box", .typeToken⟩
  | newarr => ⟨0x8d, "newarr", .typeToken⟩
  | ldlen => ⟨0x8e, "ldlen", .none⟩
  | ldelema => ⟨0x8f, "ldelema", .typeToken⟩
  | ldelemI1 => ⟨0x90, "ldelem.i1", .none⟩
  | ldelemU1 => ⟨0x91, "ldelem.u1", .none⟩
  | ldelemI2 => ⟨0x92, "ldelem.i2", .none⟩
  | ldelemU2 => ⟨0x93, "ldelem.u2", .none⟩
  | ldelemI4 => ⟨0x94, "ldelem.i4", .none⟩
  | ldelemU4 => ⟨0x95, "ldelem.u4", .none⟩
  | ldelemI8 => ⟨0x96, "ldelem.i8", .none⟩
  | ldelemR4 => ⟨0x98, "ldelem.r4", .none⟩
  | ldelemR8 => ⟨0x99, "ldelem.r8", .none⟩
  | ldelemRef => ⟨0x9a, "ldelem.ref", .none⟩
  | stelemI1 => ⟨0x9c, "stelem.i1", .none⟩
  | stelemI2 => ⟨0x9d, "stelem.i2", .none⟩
  | stelemI4 => ⟨0x9e, "stelem.i4", .none⟩
  | stelemI8 => ⟨0x9f, "stelem.i8", .none⟩
  | stelemR4 => ⟨0xa0, "stelem.r4", .none⟩
  | stelemR8 => ⟨0xa1, "stelem.r8", .none⟩
  | stelemRef => ⟨0xa2, "stelem.ref", .none⟩
  | ldelem => ⟨0xa3, "ldelem", .typeToken⟩
  | stelem => ⟨0xa4, "stelem", .typeToken⟩
  | unboxAny => ⟨0xa5, "unbox.any", .typeToken⟩
  | convU2 => ⟨0xd1, "conv.u2", .none⟩
  | convU1 => ⟨0xd2, "conv.u1", .none⟩
  | leave => ⟨0xdd, "leave", .branch⟩
  | leaveS => ⟨0xde, "leave.s", .branchShort⟩
  | ceq => ⟨0xfe01, "ceq", .none⟩
  | cgt => ⟨0xfe02, "cgt", .none⟩
  | cgtUn => ⟨0xfe03, "cgt.un", .none⟩
  | clt => ⟨0xfe04, "clt", .none⟩
  | cltUn => ⟨0xfe05, "clt.un", .none⟩
  | ldarg => ⟨0xfe09, "ldarg", .arg⟩
  | ldarga => ⟨0xfe0a, "ldarga", .arg⟩
  | starg => ⟨0xfe0b, "starg", .arg⟩
  | ldloc => ⟨0xfe0c, "ldloc", .localIndex⟩
  | ldloca => ⟨0xfe0d, "ldloca", .localIndex⟩
  | stloc => ⟨0xfe0e, "stloc", .localIndex⟩
  | initobj => ⟨0xfe15, "initobj", .typeToken⟩
  | constrained => ⟨0xfe16, "constrained.", .typeToken⟩

def all : List Opcode :=
  [nop, breakpoint, ldarg0, ldarg1, ldarg2, ldarg3, ldloc0, ldloc1, ldloc2, ldloc3, stloc0,
    stloc1, stloc2, stloc3, ldargS, ldargaS, stargS, ldlocS, ldlocaS, stlocS, ldnull, ldcI4M1,
    ldcI40, ldcI41, ldcI42, ldcI43, ldcI44, ldcI45, ldcI46, ldcI47, ldcI48, ldcI4S, ldcI4, ldcI8,
    ldcR4, ldcR8, dup, pop, call, ret, brS, brfalseS, brtrueS, beqS, bgeS, bgtS, bleS, bltS,
    bneUnS, bgeUnS, bgtUnS, bleUnS, bltUnS, br, brfalse, brtrue, beq, bge, bgt, ble, blt, bneUn,
    bgeUn, bgtUn, bleUn, bltUn, switch, ldindI1, ldindU1, ldindI2, ldindU2, ldindI4, ldindU4,
    ldindI8, ldindR4, ldindR8, ldindRef, stindRef, stindI1, stindI2, stindI4, stindI8, stindR4,
    stindR8, add, sub, mul, div, divUn, rem, remUn, and, or, xor, shl, shr, shrUn, neg, not,
    convI1, convI2, convI4, convI8, convR4, convR8, convU4, convU8, callvirt, ldobj, ldstr,
    newobj, castclass, isinst, convRUn, unbox, throw, ldfld, ldflda, stfld, ldsfld, ldsflda,
    stsfld, stobj, box, newarr, ldlen, ldelema, ldelemI1, ldelemU1, ldelemI2, ldelemU2, ldelemI4,
    ldelemU4, ldelemI8, ldelemR4, ldelemR8, ldelemRef, stelemI1, stelemI2, stelemI4, stelemI8,
    stelemR4, stelemR8, stelemRef, ldelem, stelem, unboxAny, convU2, convU1, leave, leaveS, ceq,
    cgt, cgtUn, clt, cltUn, ldarg, ldarga, starg, ldloc, ldloca, stloc, initobj, constrained]

def code (op : Opcode) : Nat := op.row.code

def mnemonic (op : Opcode) : String := op.row.mnemonic

def operandKind (op : Opcode) : OperandKind := op.row.operand

def index (op : Opcode) : Nat := all.idxOf op

def ofCode? (n : Nat) : Option Opcode := all.find? (·.code == n)

def ofMnemonic? (s : String) : Option Opcode := all.find? (·.mnemonic == s)

def isTwoByte (op : Opcode) : Bool := 0xff < op.code

def bytes (op : Opcode) : List UInt8 :=
  if op.isTwoByte then [UInt8.ofNat (op.code / 256), UInt8.ofNat op.code] else [UInt8.ofNat op.code]

def endsFlow : Opcode → Bool
  | br | brS | leave | leaveS | ret | throw => true
  | _ => false

def implicit? (op : Opcode) : Option Int :=
  match op.operandKind with
  | .implicitArg n | .implicitLocal n => some n
  | .implicitInt v => some v
  | _ => none

def isBranch (op : Opcode) : Bool :=
  match op.operandKind with
  | .branch | .branchShort | .switch => true
  | _ => false

end Opcode

end FlatHeap.Bytecode
