/-!
# Operators of filters and updates

Keys that start with `$` are operators. Each known operator belongs to one
category, which decides how its operand is cast; a name in no table is unknown
and its operand is left alone.
-/

namespace TypedDocs

/-- Whether a key is written as an operator. -/
def isOperator (key : String) : Bool := key.toList.head? = some '$'

/-- Operators on a field whose operand has a type of its own. -/
inductive ElementSelector where
  | existence
  | type
  | size
  | regex
deriving DecidableEq

inductive FilterOperator where
  /-- A list of sub-filters at the same position. -/
  | logical
  /-- The operand has the type of the field. -/
  | comparison
  /-- A list of values of the type of the field. -/
  | membership
  /-- The operand has a fixed type. -/
  | element (selector : ElementSelector)
  /-- The operand is matched against the items of an array. -/
  | container
  /-- The operand is never cast. -/
  | ignored
  | unknown
deriving DecidableEq

def filterOperators : List (String × FilterOperator) :=
  [("$or", .logical), ("$and", .logical), ("$nor", .logical), ("$all", .logical),
   ("$eq", .comparison), ("$ne", .comparison), ("$gt", .comparison), ("$gte", .comparison),
   ("$lt", .comparison), ("$lte", .comparison), ("$not", .comparison),
   ("$in", .membership), ("$nin", .membership),
   ("$exists", .element .existence), ("$type", .element .type), ("$size", .element .size),
   ("$regex", .element .regex),
   ("$elemMatch", .container),
   ("$where", .ignored), ("$geoWithin", .ignored), ("$geoIntersects", .ignored),
   ("$mod", .ignored), ("$near", .ignored), ("$nearSphere", .ignored), ("$text", .ignored),
   ("$expr", .ignored), ("$jsonSchema", .ignored), ("$comment", .ignored)]

/-- The category of a filter operator. -/
def FilterOperator.ofName (name : String) : FilterOperator :=
  (filterOperators.lookup name).getD .unknown

/-- Whether a key is a filter operator of some known category. -/
def isKnownOperator (key : String) : Bool := FilterOperator.ofName key ≠ .unknown

inductive UpdateOperator where
  /-- Values of fields. -/
  | fields
  /-- Items of arrays, one or several. -/
  | append
  /-- Lists of items. -/
  | pullAll
  /-- Conditions on items. -/
  | pull
  /-- A number for each array. -/
  | pop
  /-- Only the names of the fields matter. -/
  | pathsOnly
  | unknown
deriving DecidableEq

def updateOperators : List (String × UpdateOperator) :=
  [("$set", .fields), ("$setOnInsert", .fields), ("$inc", .fields), ("$mul", .fields),
   ("$min", .fields), ("$max", .fields),
   ("$push", .append), ("$addToSet", .append),
   ("$pullAll", .pullAll), ("$pull", .pull), ("$pop", .pop),
   ("$unset", .pathsOnly), ("$rename", .pathsOnly), ("$currentDate", .pathsOnly)]

/-- The category of an update operator. -/
def UpdateOperator.ofName (name : String) : UpdateOperator :=
  (updateOperators.lookup name).getD .unknown

end TypedDocs
