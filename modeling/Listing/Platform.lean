import Listing.Error
import Listing.Param.Value
import Listing.Text.Ascii
import Listing.Text.Blank
/-!
# Database platforms

What differs between databases: the quote character of identifiers, the form of placeholders, where
nulls are sorted, and the names of types.
-/
namespace Listing

inductive Platform where
  | postgres
  | mysql
  | sqlite
deriving DecidableEq, Repr, Inhabited

/-- Ascending or descending order. -/
inductive Direction where
  | asc
  | desc
deriving DecidableEq, Repr, Inhabited

/-- Where nulls stand in a sorted list. -/
inductive NullOrder where
  | first
  | last
deriving DecidableEq, Repr

namespace Platform

def all : List Platform := [postgres, mysql, sqlite]

def name : Platform → String
  | postgres => "postgresql"
  | mysql => "mysql"
  | sqlite => "sqlite"

/-- The platform in a document. -/
def tag : Platform → String
  | postgres => "postgres"
  | mysql => "mysql"
  | sqlite => "sqlite"

def ofTag? (tag : String) : Option Platform := all.find? (·.tag == tag)

/-- The platform that a configuration names. -/
def ofName (name : String) : Except Error Platform :=
  let name := Text.asciiLower (Text.trim name)
  if name ∈ ["postgresql", "postgres", "pgsql"] then .ok postgres
  else if name ∈ ["mysql", "mariadb"] then .ok mysql
  else if name = "sqlite" then .ok sqlite
  else .error (.unknownPlatform name)

/-- The character around identifiers. -/
def quoteChar : Platform → Char
  | mysql => '\x60'
  | postgres | sqlite => '\x22'

/-- A text between quote characters, those inside written twice. -/
def quoteWith (q : Char) (cs : List Char) : List Char :=
  q :: cs.flatMap (fun c => if c = q then [q, q] else [c]) ++ [q]

/-- An identifier as it stands in a query. -/
def quote (p : Platform) (identifier : String) : String :=
  .ofList (quoteWith p.quoteChar identifier.toList)

/-- The placeholder at a position, counted from one. -/
def placeholder (p : Platform) (position : Nat) : String :=
  match p with
  | postgres => "$" ++ toString position
  | mysql | sqlite => "?"

/-- Where nulls are put, on platforms that have to be told. -/
def nullOrder? : Platform → Direction → Option NullOrder
  | postgres, .asc => some .first
  | postgres, .desc => some .last
  | _, _ => none

/-- The name of the type under which a value is bound. -/
def typeName (p : Platform) (v : Value) : String :=
  match p, v.kind with
  | _, .null => "NULL"
  | postgres, .integer => "INT8"
  | postgres, .boolean => "BOOL"
  | postgres, .float => "FLOAT8"
  | postgres, .string => "TEXT"
  | postgres, .integerList => "INT8[]"
  | postgres, .stringList => "TEXT[]"
  | mysql, .integer | mysql, .integerList => "BIGINT"
  | mysql, .boolean => "BOOLEAN"
  | mysql, .float => "DOUBLE"
  | mysql, .string | mysql, .stringList => "VARCHAR"
  | sqlite, .integer | sqlite, .boolean | sqlite, .integerList => "INTEGER"
  | sqlite, .float => "REAL"
  | sqlite, .string | sqlite, .stringList => "TEXT"

end Platform
end Listing
