-- The names that an item carries: the slug of its key, and its category, which
-- is read in both spellings and without regard to the case of ASCII letters.
import LactoSensus.Gateway

open common.taxonomy

/-! ## Slugs -/

namespace common.slug

/-- The slug so far, and whether it has just been separated. -/
def slugifyStep : List Char × Bool → Char → List Char × Bool
  | (slug, prev_was_sep), ch =>
    if ch.isAlphanum then (slug ++ [ch.toLower], false)
    else if !prev_was_sep then (slug ++ ['_'], true)
    else (slug, prev_was_sep)

def slugify (input : String) : String :=
  let slug := (input.toList.foldl slugifyStep ([], true)).1
  String.ofList (if slug.getLast? = some '_' then slug.dropLast else slug)

example : slugify "milk_-_Whole!" = "milk_whole" := by decide +kernel

end common.slug

/-! ## Categories -/

namespace common.taxonomy

def eq_ignore_ascii_case (a b : String) : Bool :=
  a.toList.map Char.toLower = b.toList.map Char.toLower

/-- The `serialize` attributes of the variants, in their order. -/
def categories : List (GroceryCategory × List String) :=
  [(.PrimaryFlora, ["Primary Flora", "PrimaryFlora"]),
    (.AnimalSecretions, ["Animal Secretions", "AnimalSecretions"]),
    (.FleshAndMarrow, ["Flesh And Marrow", "FleshAndMarrow"]),
    (.ShelfStableCarbohydrates, ["Shelf Stable Carbohydrates", "ShelfStableCarbohydrates"]),
    (.CulturedDoughs, ["Cultured Doughs", "CulturedDoughs"]),
    (.LiquefiedHydration, ["Liquefied Hydration", "LiquefiedHydration"]),
    (.CondimentsAndCatalysts, ["Condiments And Catalysts", "CondimentsAndCatalysts"]),
    (.NutrientSparseCommodities, ["Nutrient Sparse Commodities", "NutrientSparseCommodities"]),
    (.EthanolSolutions, ["Ethanol Solutions", "EthanolSolutions"]),
    (.BiomedicalMaintenance, ["Biomedical Maintenance", "BiomedicalMaintenance"]),
    (.SanitizationAndUtility, ["Sanitization And Utility", "SanitizationAndUtility"]),
    (.AnomalousInputs, ["Anomalous Inputs", "AnomalousInputs"])]

def GroceryCategory.from_str (s : String) : Option GroceryCategory :=
  (categories.find? fun c => c.2.any (eq_ignore_ascii_case s)).map Prod.fst

/-- What a category prints is read as the category. -/
theorem from_str_to_string (c : GroceryCategory) :
    GroceryCategory.from_str c.to_string = some c := by
  cases c <;> decide +kernel

end common.taxonomy
