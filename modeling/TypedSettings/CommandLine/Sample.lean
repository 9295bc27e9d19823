/-!
# The sample definition

The definition that a project can start with.
-/

namespace TypedSettings.CommandLine

def sampleLines : List String := [
  "# Settings definition",
  "#",
  "# Every UPPERCASE key below is a setting. Override one by exporting",
  "# \x7bprefix\x7d\x7bNAME\x7d, e.g. ENVCAST_PORT=8080 with the default prefix.",
  "#",
  "# Overrides are converted to the setting's type:",
  "#   bool         \"true\" in any case is true, anything else false",
  "#   int, float   parsed as numbers",
  "#   list, dict   parsed as literals: '[\"a\", \"b\"]', '\x7b\"key\": 1\x7d'",
  "#   str          used as-is",
  "",
  "[defaults]",
  "DEBUG = false",
  "PORT = 8000",
  "SECRET_KEY = \"change-me\"",
  "DATABASE_URL = \"sqlite:///db.sqlite3\"",
  "ALLOWED_HOSTS = [\"localhost\"]",
  "",
  "[defaults.FEATURE_FLAGS]",
  "new_ui = false",
  "",
  "# Type annotations refine or replace the type taken from the default.",
  "# A setting declared here without a default defaults to None.",
  "[types]",
  "ALLOWED_HOSTS = \"list[str]\"",
  "FEATURE_FLAGS = \"dict[str, bool]\"",
  "REQUEST_TIMEOUT = \"float | None\""
]

/-- `InitArgs::generate_definition`. -/
def sampleDefinition : String := String.join (sampleLines.map (· ++ "\n"))

end TypedSettings.CommandLine
