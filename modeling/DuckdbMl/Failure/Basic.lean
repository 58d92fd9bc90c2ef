import Mathlib.Data.Int.Notation
import Mathlib.Data.Nat.Notation

/-!
# Failures

## Main definitions

* `Context`, `Cause`, `Failure`: what failed and why
-/

namespace DuckdbMl

/-- What was under way. -/
inductive Context
  | database
  | connection
  | transaction
  | query (sql : String)
  | table (schema name : String)
  | parquet (path : String)
  | migration (version : ℤ) (name : String)
  deriving DecidableEq

/-- The reason a custom codec gives. -/
abbrev Reason := String

/-- The rows a request wants. -/
inductive Cardinality
  | one
  | zeroOrOne
  deriving DecidableEq

/-- A number of rows that it does not want. -/
inductive Surplus
  | zero
  | moreThanOne
  deriving DecidableEq

inductive Cause
  | invalidConfiguration (message : String)
  | embeddedNul
  | closed
  | busy
  | cancelled
  | native (message : String)
  | unsupportedStatement
  | effectsNotAllowed
  | typeMismatch (index : ℕ) (expected actual : String)
  | null (column row : ℕ)
  | index (index length : ℕ)
  | lengthMismatch (column expected actual : ℕ)
  | unboundParameter (index : ℕ)
  | parameterCount (expected actual : ℕ)
  | columnCount (expected actual : ℕ)
  | parameterSchemaChanged
  | rowCount (expected : Cardinality) (actual : Surplus)
  | unknownColumn (name : String)
  | missingColumn (name : String)
  | unknownTable (schema name : String)
  | constraintMismatch (kind expected actual : String)
  | migrationMismatch (version : ℤ) (expected actual : String)
  | encodeRejected (index : ℕ) (reason : Reason)
  | decodeRejected (column row : ℕ) (reason : Reason)
  | destinationExists
  | unsupportedParquetType (column : ℕ) (actual : String)
  | rollbackFailed (primary : Context × Cause) (rollback : Context × Cause)

structure Failure where
  context : Context
  cause : Cause

end DuckdbMl
