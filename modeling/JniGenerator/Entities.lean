import JniGenerator.Params
import JniGenerator.CTypes

/-! The records the extractors build: `NativeMethod`, `CalledByNative` and
`ConstantField`, with the classification `NativeMethod.__init__` makes. -/

namespace JniGenerator

/-- `NativeMethod.type`: a `method` carries the `p0_type` of its native peer. -/
inductive NativeType where
  | method (p0Type : Str)
  | function
  deriving DecidableEq, Repr

/-- Describes a C/C++ method that is called by Java code. -/
structure NativeMethod where
  static : Bool
  javaClassName : Option Str
  returnType : Str
  name : Str
  params : List Param
  type : NativeType
  deriving DecidableEq, Repr

namespace NativeMethod

/-- The classification of `__init__`: a first parameter of the pointer type whose
name starts with `native` makes a method bound to the peer it names. -/
def classify (params : List Param) (nativeClassName : Option Str) (ptrType : Str) : NativeType :=
  match params with
  | p0 :: _ =>
    if p0.datatype = ptrType ∧ startswith p0.name "native".toList then
      match nativeClassName with
      | some (c :: cs) => .method (c :: cs)
      | _ => .method (p0.name.drop "native".length)
    else .function
  | [] => .function

/-- `NativeMethod(**kwargs)` -/
def init (static : Bool) (javaClassName nativeClassName : Option Str) (returnType name : Str)
    (params : List Param) (ptrType : Str) : NativeMethod :=
  ⟨static, javaClassName, returnType, name, params, classify params nativeClassName ptrType⟩

end NativeMethod

/-- Describes a java method exported to c/c++. `method_id_var_name` is `None`
until `MangleCalledByNatives` sets it. -/
structure CalledByNative where
  systemClass : Bool
  unchecked : Bool
  static : Bool
  javaClassName : Str
  returnType : Str
  name : Str
  params : List Param
  methodIdVarName : Option Str := none
  signature : Option Str := none
  isConstructor : Bool := false
  deriving DecidableEq, Repr

namespace CalledByNative

/-- `self.env_call`, fixed by `__init__` from fields that never change. -/
def envCall (c : CalledByNative) : Str := getEnvCall c.isConstructor c.static c.returnType

/-- `self.static_cast` -/
def staticCast (c : CalledByNative) : Option Str := getStaticCastForReturnType c.returnType

end CalledByNative

structure ConstantField where
  name : Str
  value : Str
  deriving DecidableEq, Repr

end JniGenerator
