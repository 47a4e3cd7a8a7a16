/-!
Masking credentials. A query holds credentials where a parameter's name ends in one of five words, in
any case; its value, up to the next ampersand, is replaced by stars. Two letters beyond ASCII count as
the letters that they fold to.
-/

namespace ExprRegistry

def credentialWords : List String := ["token", "key", "secret", "password", "auth"]

/-- Whether a character is a lower-case letter when case is ignored. -/
def foldsTo (letter c : Char) : Bool :=
  c == letter || c.toNat + 32 == letter.toNat || (letter == 's' && c == '\u017F') ||
    (letter == 'k' && c == '\u212A')

/-- Whether characters, the last one first, end in a word whose letters are also given last first. -/
def endsIn : List Char → List Char → Bool
  | [], _ => true
  | _ :: _, [] => false
  | letter :: word, c :: before => foldsTo letter c && endsIn word before

/-- Whether the characters before an equals sign, the last one first, name a credential. -/
def namesCredential (before : List Char) : Bool :=
  credentialWords.any fun word => endsIn word.toList.reverse before

def hasValue : List Char → Bool
  | [] => false
  | c :: _ => c != '&'

/-- Masks credentials. The characters before are given last first; while masking, characters are dropped
up to the next ampersand. -/
def redactFrom (masking : Bool) (before : List Char) : List Char → List Char
  | [] => []
  | c :: rest =>
    if masking && c != '&' then redactFrom true (c :: before) rest
    else if c == '=' && namesCredential before && hasValue rest then
      '=' :: '*' :: '*' :: '*' :: redactFrom true (c :: before) rest
    else c :: redactFrom false (c :: before) rest

def redact (s : String) : String := String.ofList (redactFrom false [] s.toList)

end ExprRegistry
