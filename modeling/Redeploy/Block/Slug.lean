import Redeploy.Binding.Import
import Redeploy.Text.CharClass

set_option autoImplicit false

/-! # Block type slugs

The slug of a block type, from the name of the class that stands for it: the words of the name in
lowercase, joined by hyphens. A word starts at a capital after a lowercase letter or a digit, and at
the last capital of a run of capitals if a lowercase letter follows it. A few classes have slugs of
their own. -/

namespace Redeploy.Slug

/-- Whether a new word starts at a character, told by its neighbours. -/
def startsWord (prev c : Char) (next : Option Char) : Bool :=
  isUppercase c &&
    (isLowercase prev || isAsciiDigit prev || (isUppercase prev && next.any isLowercase))

/-- What stands for a character between its neighbours: a hyphen for an underscore, and any other
    character in lowercase, after a hyphen where a word starts. -/
def kebabChar (prev : Option Char) (c : Char) (next : Option Char) : Text :=
  if c = '_' then ['-']
  else if prev.any (startsWord · c next) then '-' :: lowercase c
  else lowercase c

/-- The words of a name after a character, in lowercase and joined by hyphens. -/
def kebabAfter : Option Char → Text → Text
  | _, [] => []
  | prev, c :: t => kebabChar prev c t.head? ++ kebabAfter (some c) t

/-- The words of a name in lowercase, joined by hyphens. -/
def kebabCase (name : Text) : Text :=
  kebabAfter none name

/-- The classes whose slugs do not follow from their names. -/
def knownClasses : List (String × String) :=
  [("GitHub", "github"),
    ("GitHubRepository", "github-repository"),
    ("GitLabRepository", "gitlab-repository"),
    ("BitBucketRepository", "bitbucket-repository"),
    ("ECSTask", "ecs-task"),
    ("VertexAICustomTrainingJob", "vertex-ai-custom-training-job"),
    ("S3", "s3"),
    ("GCS", "gcs"),
    ("SMB", "smb")]

/-- The slug of a class. -/
def ofClassName (name : String) : String :=
  match knownClasses.find? fun known => known.1 == name with
  | some (_, slug) => slug
  | none => String.ofList (kebabCase name.toList)

/-- The slug of a class given by a dotted path, whose last segment is its name. -/
def ofClass (path : String) : String :=
  ofClassName ((pathSegments path).getLast?.getD path)

/-- Whether a text has the form of a block slug: a type and a name with a slash between them. -/
def isWellFormed (slug : String) : Bool :=
  match Text.splitFirst? '/' slug.toList with
  | some (blockType, name) => !blockType.isEmpty && !name.isEmpty
  | none => false

end Redeploy.Slug
