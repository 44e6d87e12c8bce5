import FlatHeap.Rules.Accessors
import FlatHeap.Rules.Arithmetic
import FlatHeap.Rules.Comparison
import FlatHeap.Rules.HostMembers
import FlatHeap.Rules.Objects
import FlatHeap.Rules.Optionals
import FlatHeap.Rules.OwnMembers
import FlatHeap.Rules.RemoteMembers
import FlatHeap.Rules.Slots
import FlatHeap.Rules.Transfers

/-!
# The standard rulebook

Calls and field accesses are offered in the order: trivial accessors of the class, optional values,
the class itself, other programs, the host.
-/

namespace FlatHeap.Rulebook

open Bytecode (Opcode)
open Rules

def accessorPriority : Int := 100

def optionalPriority : Int := 50

def ownPriority : Int := 10

def remotePriority : Int := 5

def callOpcodes : List Opcode := [.call, .callvirt, .newobj]

def standardRules : List (List Opcode × Int × Rule) :=
  [([.nop, .breakpoint], 0, noOp),
    ([.ldarg0, .ldarg1, .ldarg2, .ldarg3, .ldargS, .ldarg], 0, loadArgument),
    ([.stargS, .starg], 0, storeArgument),
    ([.ldloc0, .ldloc1, .ldloc2, .ldloc3, .ldlocS, .ldloc], 0, loadLocal),
    ([.stloc0, .stloc1, .stloc2, .stloc3, .stlocS, .stloc], 0, storeLocal),
    ([.ldargaS, .ldarga, .ldlocaS, .ldloca], 0, loadAddress),
    ([.ldnull, .ldcI4M1, .ldcI40, .ldcI41, .ldcI42, .ldcI43, .ldcI44, .ldcI45, .ldcI46, .ldcI47,
      .ldcI48, .ldcI4S, .ldcI4, .ldcI8, .ldcR4, .ldcR8, .ldstr], 0, loadConstant),
    ([.dup], 0, duplicate),
    ([.pop], 0, dropTop),
    ([.add, .sub, .mul, .div, .divUn, .rem, .remUn, .and, .or, .xor, .shl, .shr, .shrUn], 0,
      binary),
    ([.neg, .not], 0, unary),
    ([.convI1, .convI2, .convI4, .convI8, .convU1, .convU2, .convU4, .convU8, .convR4, .convR8,
      .convRUn], 0, conversion),
    ([.ceq, .cgt, .cgtUn, .clt, .cltUn], 0, comparison),
    ([.br, .brS, .leave, .leaveS], 0, jumping),
    ([.brtrue, .brtrueS, .brfalse, .brfalseS], 0, testing),
    ([.beq, .beqS, .bneUn, .bneUnS, .bge, .bgeS, .bgeUn, .bgeUnS, .bgt, .bgtS, .bgtUn, .bgtUnS,
      .ble, .bleS, .bleUn, .bleUnS, .blt, .bltS, .bltUn, .bltUnS], 0, comparingBranch),
    ([.switch], 0, jumpTable),
    ([.ret], 0, returning),
    ([.throw], 0, throwing),
    (callOpcodes, optionalPriority, optionals),
    (callOpcodes, ownPriority, ownCall),
    (callOpcodes, remotePriority, remoteCall),
    (callOpcodes, 0, hostCall),
    ([.constrained], 0, constrainedReceiver),
    ([.ldfld, .stfld, .ldflda], ownPriority, ownField),
    ([.ldfld, .stfld], remotePriority, remoteField),
    ([.ldfld, .stfld, .ldflda], 0, hostField),
    ([.ldsfld, .stsfld, .ldsflda], 0, staticField),
    ([.box, .unbox, .unboxAny, .castclass, .isinst], 0, casts),
    ([.newarr, .ldlen], 0, arrays),
    ([.ldelemI1, .ldelemU1, .ldelemI2, .ldelemU2, .ldelemI4, .ldelemU4, .ldelemI8, .ldelemR4,
      .ldelemR8, .ldelemRef, .ldelem], 0, loadElement),
    ([.stelemI1, .stelemI2, .stelemI4, .stelemI8, .stelemR4, .stelemR8, .stelemRef, .stelem], 0,
      storeElement),
    ([.ldelema], 0, loadElementAddress),
    ([.ldobj, .ldindI1, .ldindU1, .ldindI2, .ldindU2, .ldindI4, .ldindU4, .ldindI8, .ldindR4,
      .ldindR8, .ldindRef], 0, loadThrough),
    ([.stobj, .stindI1, .stindI2, .stindI4, .stindI8, .stindR4, .stindR8, .stindRef], 0,
      storeThrough),
    ([.initobj], 0, resetThrough)]

def addStandard (b : Rulebook) : Rulebook :=
  standardRules.foldl
    (fun b (opcodes, priority, rule) => b.register opcodes priority .permanent rule) b

def standard : Rulebook := addStandard {}

def addClassRules (b : Rulebook) (md : Metadata) (naming : Naming) (o : Options) :
    Except CompileError Rulebook := do
  if !o.inlineAccessors then return b
  let accessors ← Accessor.ofClass md naming
  return b.register [.call, .callvirt] accessorPriority .oneClass (accessorShortcut accessors)

end FlatHeap.Rulebook
