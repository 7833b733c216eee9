import Scriptlet.Syntax
import Scriptlet.Text.Quoted

/-! # Values

Nil, numbers, truth values, functions of the program and functions of the host. A function knows the
scope it was declared in. Scopes bind a name once, and functions are bound where they are declared,
so that scope and the name together say which function it is; the same holds of a host function and
the scope it was installed in.
-/

namespace Scriptlet

/-- Scopes are numbered in the order in which they are made. -/
abbrev ScopeId := Nat

/-- A function of the program, with the scope that its body sees. -/
structure Function where
  name : String
  params : List String
  body : List Stmt
  closure : ScopeId

/-- The functions that the host provides. -/
inductive NativeKind where
  | println
  | assert
deriving DecidableEq

namespace NativeKind

/-- The name a host function is bound to. -/
def name : NativeKind → String
  | println => "println"
  | assert => "assert"

/-- How many arguments a host function takes, if the number is fixed. -/
def arity? : NativeKind → Option Nat
  | println => none
  | assert => some 1

/-- All host functions, in the order in which they are installed. -/
def all : List NativeKind := [println, assert]

end NativeKind

/-- Where a host function prints. -/
inductive Channel where
  | console
  | discarded
deriving DecidableEq

/-- A function of the host, the scope it was installed in, and where it prints. -/
structure Native where
  kind : NativeKind
  home : ScopeId
  channel : Channel
deriving DecidableEq

/-- A value. -/
inductive Value where
  | nil
  | number (value : Float)
  | bool (value : Bool)
  | function (value : Function)
  | native (value : Native)

/-- The types of values. -/
inductive ValueType where
  | nil
  | number
  | bool
  | function
  | native
deriving DecidableEq

/-- The name of a type, as messages write it. -/
def ValueType.text : ValueType → String
  | nil => "nil"
  | number => "number"
  | bool => "bool"
  | function => "function"
  | native => "native function"

/-- Whether two functions are one and the same. -/
def Function.same (f g : Function) : Bool :=
  f.closure == g.closure && f.name == g.name

/-- Whether two host functions are one and the same. -/
def Native.same (f g : Native) : Bool :=
  f.home == g.home && f.kind == g.kind

/-- A function as listings show it: its name and its parameters. -/
def Function.listing (f : Function) : String :=
  "UserFunction \x7b name: " ++ Text.quote f.name ++ ", parameters: " ++ Text.quoteList f.params ++
    ", .. \x7d"

/-- A host function as listings show it: its name and the number of arguments it takes. -/
def Native.listing (f : Native) : String :=
  let arity := match f.kind.arity? with
    | none => "None"
    | some n => "Some(" ++ toString n ++ ")"
  "NativeFunction \x7b name: " ++ Text.quote f.kind.name ++ ", arity: " ++ arity ++ ", .. \x7d"

namespace Value

/-- The type of a value. -/
def type : Value → ValueType
  | nil => .nil
  | number _ => .number
  | bool _ => .bool
  | function _ => .function
  | native _ => .native

/-- A value as it is printed. -/
def text : Value → String
  | nil => "nil"
  | number x => Number.text x
  | bool b => if b then "true" else "false"
  | function f => "<fn " ++ f.name ++ ">"
  | native f => "<native fn " ++ f.kind.name ++ ">"

/-- Whether a value can be called. -/
def isCallable : Value → Bool
  | function _ | native _ => true
  | _ => false

/-- Whether two values are the same: numbers as numbers, functions by identity, values of different
types never. -/
def same : Value → Value → Bool
  | nil, nil => true
  | number x, number y => x == y
  | bool a, bool b => a == b
  | function f, function g => f.same g
  | native f, native g => f.same g
  | _, _ => false

end Value

end Scriptlet
