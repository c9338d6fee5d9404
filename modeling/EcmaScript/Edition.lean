/-!
# Editions of the language

Editions are ordered: a later one accepts every feature of the earlier ones.

## Contents

* `Edition`, `Edition.all`: the editions, oldest first.
* `Edition.name`: the name that diagnostics use.
* `Edition.key`, `Edition.ofKey?`: the name that a configuration uses, and its reader.
-/

namespace EcmaScript

/-- The edition of the language that a source is expected to conform to. -/
inductive Edition where
  /-- The third edition. -/
  | es3
  /-- The fifth edition. -/
  | es5
  /-- The 2015 edition. -/
  | es2015
  /-- The 2016 edition. -/
  | es2016
  /-- The 2017 edition. -/
  | es2017
  /-- The 2018 edition. -/
  | es2018
  /-- The 2019 edition. -/
  | es2019
  /-- The 2020 edition. -/
  | es2020
  /-- The 2021 edition. -/
  | es2021
  /-- Finished proposals newer than the last named edition. -/
  | esNext
  /-- Everything the parser understands. -/
  | unsupported
  deriving DecidableEq, Repr, Inhabited

namespace Edition

/-- All editions, oldest first. -/
def all : List Edition :=
  [.es3, .es5, .es2015, .es2016, .es2017, .es2018,
   .es2019, .es2020, .es2021, .esNext, .unsupported]

/-- Number of older editions. -/
def rank (e : Edition) : Nat := e.ctorIdx

instance : LE Edition := ⟨fun a b => a.rank ≤ b.rank⟩

instance (a b : Edition) : Decidable (a ≤ b) := inferInstanceAs (Decidable (a.rank ≤ b.rank))

/-- The newer of two editions. -/
def newer (a b : Edition) : Edition := if a ≤ b then b else a

/-- The name that diagnostics use. -/
def name : Edition → String
  | es3 => "ECMASCRIPT3"
  | es5 => "ECMASCRIPT5"
  | es2015 => "ECMASCRIPT_2015"
  | es2016 => "ECMASCRIPT_2016"
  | es2017 => "ECMASCRIPT_2017"
  | es2018 => "ECMASCRIPT_2018"
  | es2019 => "ECMASCRIPT_2019"
  | es2020 => "ECMASCRIPT_2020"
  | es2021 => "ECMASCRIPT_2021"
  | esNext => "ES_NEXT"
  | unsupported => "ES_UNSUPPORTED"

/-- The name that a configuration uses. -/
def key : Edition → String
  | es3 => "ECMASCRIPT3"
  | es5 => "ECMASCRIPT5"
  | es2015 => "ECMASCRIPT2015"
  | es2016 => "ECMASCRIPT2016"
  | es2017 => "ECMASCRIPT2017"
  | es2018 => "ECMASCRIPT2018"
  | es2019 => "ECMASCRIPT2019"
  | es2020 => "ECMASCRIPT2020"
  | es2021 => "ECMASCRIPT2021"
  | esNext => "ECMASCRIPT_NEXT"
  | unsupported => "UNSUPPORTED"

/-- The edition that a configuration calls `key`. -/
def ofKey? (key : String) : Option Edition := all.find? fun e => e.key == key

end Edition

end EcmaScript
