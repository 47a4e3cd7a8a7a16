import ExprRegistry.Decimal.Double
import ExprRegistry.Json.Basic

/-!
Settings of the program. A setting holds a document value, because a settings file may put null anywhere;
each setting has a key in settings files and a name of its own.
-/

namespace ExprRegistry

/-- The settings. -/
inductive Setting where
  | apiUrl
  | indexFile
  | requestTimeout
  | retryMax
  | retryDelay
  | cacheTtl
  deriving DecidableEq

namespace Setting

def all : List Setting := [apiUrl, indexFile, requestTimeout, retryMax, retryDelay, cacheTtl]

def key : Setting → String
  | apiUrl => "api_url"
  | indexFile => "index"
  | requestTimeout => "request_timeout"
  | retryMax => "retry_max"
  | retryDelay => "retry_base_delay"
  | cacheTtl => "cache_ttl"

def name : Setting → String
  | apiUrl => "API_BASE_URL"
  | indexFile => "INDEX_FILE"
  | requestTimeout => "REQUEST_TIMEOUT"
  | retryMax => "HTTP_RETRY_MAX"
  | retryDelay => "HTTP_RETRY_BASE_DELAY_SEC"
  | cacheTtl => "HTTP_CACHE_TTL_SEC"

def ofKey? (key : Scalar) : Option Setting := all.find? fun s => .str s.key == key

def ofName? (name : String) : Option Setting := all.find? fun s => s.name == name

end Setting

/-- The values of the settings. Times are in seconds. -/
structure Settings where
  apiUrl : Json := .str "http://localhost:4000/api/v1"
  indexFile : Json := .null
  requestTimeout : Json := .int 30
  retryMax : Json := .int 3
  retryDelay : Json := .float (Double.ofDecimal false 3 (-1))
  cacheTtl : Json := .int 300
  deriving DecidableEq

namespace Settings

def get (s : Settings) : Setting → Json
  | .apiUrl => s.apiUrl
  | .indexFile => s.indexFile
  | .requestTimeout => s.requestTimeout
  | .retryMax => s.retryMax
  | .retryDelay => s.retryDelay
  | .cacheTtl => s.cacheTtl

def set (s : Settings) (setting : Setting) (v : Json) : Settings :=
  match setting with
  | .apiUrl => { s with apiUrl := v }
  | .indexFile => { s with indexFile := v }
  | .requestTimeout => { s with requestTimeout := v }
  | .retryMax => { s with retryMax := v }
  | .retryDelay => { s with retryDelay := v }
  | .cacheTtl => { s with cacheTtl := v }

end Settings

end ExprRegistry
