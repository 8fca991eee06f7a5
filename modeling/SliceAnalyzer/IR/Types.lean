import Mathlib.Logic.Basic

/-!
# LLVM types and `isCompatibleType`

Typed pointers, as in the LLVM versions that have `getPointerElementType`.
-/

namespace SliceAnalyzer

/-- The type ids of the types `isCompatibleType` compares by id alone. -/
inductive TypeID where
  | void | half | bfloat | float | double | x86FP80 | fp128 | ppcFP128
  | label | metadata | x86MMX | x86AMX | token | fixedVector | scalableVector | targetExt
  deriving DecidableEq, Repr

/-- An LLVM type. Struct names are those of identified structs; a literal struct has none. -/
inductive Ty where
  | pointer (elem : Ty) (addrSpace : Nat)
  | array (numElements : Nat) (elem : Ty)
  | integer (bitWidth : Nat)
  | struct (isLiteral : Bool) (name : String) (elems : List Ty)
  | function (ret : Ty) (params : List Ty) (isVarArg : Bool)
  | other (id : TypeID)
  deriving Repr, Inhabited

/-- `Type::isIntegerTy(8)`: the pointee of `char *` and of `void *` in LLVM IR. -/
def Ty.isInteger8 : Ty → Bool
  | .integer 8 => true
  | _ => false

mutual

/-- `CallGraphPass::isCompatibleType(T1, T2)`. -/
def isCompatibleType : Ty → Ty → Bool
  | .pointer elT1 _, .pointer elT2 _ => elT1.isInteger8 || isCompatibleType elT1 elT2
  | .pointer .., _ => false
  | .array _ elT1, .array .. => isCompatibleType elT1 elT1
  | .array .., _ => false
  | .integer width, .pointer _ addrSpace => width == addrSpace
  | .integer _, .integer _ => true
  | .integer _, _ => false
  | .struct literal1 name1 elems1, .struct literal2 name2 elems2 =>
      if literal1 != literal2 then false
      else if literal1 then compatibleElems elems1 elems2
      else name1 == name2
  | .struct .., _ => false
  | .function ret1 params1 varArg1, .function ret2 params2 varArg2 =>
      isCompatibleType ret1 ret2 && (if varArg1 then varArg2 else compatibleElems params1 params2)
  | .function .., _ => false
  | .other id1, .other id2 => id1 == id2
  | .other _, _ => false

/-- The element loop of the struct case and the parameter loop of the function case. -/
def compatibleElems : List Ty → List Ty → Bool
  | [], [] => true
  | t1 :: ts1, t2 :: ts2 => isCompatibleType t1 t2 && compatibleElems ts1 ts2
  | _, _ => false

end

mutual

theorem isCompatibleType_self : (t : Ty) → isCompatibleType t t = true
  | .pointer elem _ => Bool.or_eq_true_iff.2 (.inr (isCompatibleType_self elem))
  | .array _ elem => isCompatibleType_self elem
  | .integer _ => rfl
  | .struct false _ _ => beq_self_eq_true _
  | .struct true _ elems => compatibleElems_self elems
  | .function ret _ true => Bool.and_eq_true_iff.2 ⟨isCompatibleType_self ret, rfl⟩
  | .function ret params false =>
      Bool.and_eq_true_iff.2 ⟨isCompatibleType_self ret, compatibleElems_self params⟩
  | .other id => beq_self_eq_true id

theorem compatibleElems_self : (ts : List Ty) → compatibleElems ts ts = true
  | [] => rfl
  | t :: ts => Bool.and_eq_true_iff.2 ⟨isCompatibleType_self t, compatibleElems_self ts⟩

end

theorem array_compatible_any :
    isCompatibleType (.integer 32) (.other .float) = false ∧
      ∀ n1 n2 E1 E2, isCompatibleType (.array n1 E1) (.array n2 E2) = true :=
  ⟨rfl, fun _ _ E1 _ => isCompatibleType_self E1⟩

end SliceAnalyzer
