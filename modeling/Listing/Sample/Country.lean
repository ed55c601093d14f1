import Listing.Fetch
/-!
# The list of countries

A list to try things on: countries with continent, region, capital and a count of cities. Names are
compared in lower case and the count is an aggregate.
-/
namespace Listing.Sample

def countrySelect : List String :=
  ["country.id AS id", "country.name AS country_name", "continent.name AS continent_name",
    "region.name AS region_name", "capital.name AS capital_name",
    "capital.last_date AS capital_last_date", "COUNT(city.id) AS city_cnt"]

/-- A left join under an alias. -/
def leftJoin (table tableAlias on : String) : Json :=
  .obj [("join_type", .str "left"), ("table", .str table), ("alias", .str tableAlias), ("on", .str on)]

def countrySkeleton : Json :=
  .obj [
    ("select", Json.strings countrySelect),
    ("from", .str "country"),
    ("joins", .arr [
      leftJoin "continent" "continent" "country.continent_id = continent.id",
      leftJoin "region" "region" "country.region_id = region.id",
      leftJoin "city" "capital" "country.capital_city_id = capital.id",
      leftJoin "city" "city" "city.country_id = country.id"]),
    ("group_by", Json.strings ["country.id", "continent.id", "region.id", "capital.id"])]

def countryDefinition : Json :=
  let lowerCased : Json := .obj [("lower_cased", .bool true)]
  .obj [
    ("skeleton", countrySkeleton),
    ("fields", .obj [
      ("country_name", lowerCased), ("continent_name", lowerCased), ("region_name", lowerCased),
      ("capital_name", lowerCased), ("city_cnt", .obj [("aggregated", .bool true)])])]

/-- A condition inside a `condition` object. -/
def condition (connective : Json) (property operator : String) (value : Json) : Json :=
  .obj [("bool_operator", connective), ("condition",
    .obj [("property", .str property), ("operator", .str operator), ("value", value)])]

def group (connective : String) (entries : List Json) : Json :=
  .obj [("bool_operator", .str connective), ("collection", .arr entries)]

/-- A filter with groups that looks at plain, lower-cased and aggregated fields. -/
def countryFilter : Json :=
  .obj [("collection", .arr [
    condition .null "region_name" "in" (Json.strings ["south america", "australia and new zealand"]),
    group "and" [
      condition .null "capital_last_date" "between" (Json.strings ["1987-05-09", "2000-01-01"]),
      condition (.str "or") "country_name" "contains" (.str "islands")],
    group "and" [condition .null "city_cnt" "greater_than" (.int 3)]])]

/-- A country of the list. -/
structure Country where
  id : Int64
  name : String
  continent : String := "Europe"
  region : Option String := some "Western Europe"
  capital : Option String := none
  cities : Int64 := 0
deriving DecidableEq, Repr, Inhabited

/-- The country as a row of the list. -/
def Country.toRow (c : Country) : Row :=
  [("id", .int c.id.toInt), ("country_name", .str c.name), ("continent_name", .str c.continent),
    ("region_name", Json.ofOption .str c.region), ("capital_name", Json.ofOption .str c.capital),
    ("city_cnt", .int c.cities.toInt)]

/-- Rows of `Country 1`, `Country 2`, … -/
def countryRows (count : Nat) : List Row :=
  (List.range count).map fun i =>
    Country.toRow { id := .ofNat (i + 1), name := "Country " ++ toString (i + 1) }

end Listing.Sample
