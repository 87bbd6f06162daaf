import Eunox.PathPattern
import Eunox.EngineDecision

/-! Selecting the constraint that governs a request, and `ValidateAction`, which
selects one, checks the arguments against its schema and evaluates it. -/
namespace Eunox
open ByteString PathPattern CallCounter

variable (req : EnforceRequest)

/-- The type and the bare name a request is about. -/
def resolveRequestTarget : Bytes × Bytes :=
  let (reqType, bareName) := splitEnginePrefix req.targetName
  match req.target with
  | none => (reqType, bareName)
  | some target =>
    (if target.type.isEmpty then reqType else target.type,
      if (trimSpace target.name).isEmpty then bareName else trimSpace target.name)

/-- A malformed pattern matches nothing but its own text. -/
def matchesResource (resource toolName : Bytes) : Bool :=
  resource == lit "*" || resource == toolName || (pathMatch resource toolName).getD false

def requiredActionFor (targetType : Bytes) : Bytes :=
  if targetType = lit "resource" then lit "read"
  else if targetType = lit "prompt" then lit "get"
  else if targetType = lit "system" then lit "allow"
  else lit "call"

def validActionsFor (targetType : Bytes) : List Bytes :=
  if targetType = lit "tool" then [lit "call", lit "*"]
  else if targetType = lit "resource" then [lit "read", lit "*"]
  else if targetType = lit "prompt" then [lit "get", lit "*"]
  else if targetType = lit "system" then [lit "allow", lit "*"]
  else [lit "*"]

/-- An empty list of actions permits nothing. -/
def actionPermitted (actions : List Bytes) (targetType : Bytes) : Bool :=
  actions.any (validActionsFor targetType).contains

def Constraint.hasPrincipal (c : Constraint) : Bool := !c.principal.isEmpty

def matchesAnyPattern (value : Bytes) (patterns : List Bytes) : Bool :=
  patterns.any fun p => p == value || (pathMatch p value).getD false

/-- Every named claim must be a string that matches one of its patterns. -/
def Constraint.principalMatches (c : Constraint) (claims : Members) : Bool :=
  c.principal.all fun entry =>
    match claims.lookup entry.1 with
    | some (.string value) => matchesAnyPattern value entry.2
    | _ => false

/-! Specificity. -/

def resourceSpecificityLiteralWeight : ℤ := 10
def maxWildcardTiebreak : ℤ := resourceSpecificityLiteralWeight - 1
def exactMatchSpecificity : ℤ := 2 ^ 27
def resourceScoreWeight : ℤ := 10
def noMatchScore : ℤ := -2 ^ 30

/-- Past the first rune. -/
def dropRune (s : Bytes) : Bytes := s.drop (decodeRune s).2

/-- Past the closing bracket of a class. -/
def dropClass : ℕ → Bytes → Bytes
  | 0, s => s
  | bound + 1, s =>
    if s.isEmpty then []
    else if (decodeRune s).1 = 93 then dropRune s
    else if (decodeRune s).1 = 92 then dropClass bound (dropRune (dropRune s))
    else dropClass bound (dropRune s)

/-- The literal runes and the wildcards of a pattern. -/
def countRunes : ℕ → Bytes → ℤ × ℤ → ℤ × ℤ
  | 0, _, counts => counts
  | bound + 1, s, (literals, wildcards) =>
    if s.isEmpty then (literals, wildcards)
    else
      let rune := (decodeRune s).1
      if rune = 42 || rune = 63 then countRunes bound (dropRune s) (literals, wildcards + 1)
      else if rune = 92 then
        let escaped := dropRune s
        if escaped.isEmpty then (literals, wildcards)
        else countRunes bound (dropRune escaped) (literals + 1, wildcards)
      else if rune = 91 then
        let body := dropRune s
        let body := if (decodeRune body).1 = 94 then dropRune body else body
        countRunes bound (dropClass body.length body) (literals, wildcards + 1)
      else countRunes bound (dropRune s) (literals + 1, wildcards)

def resourceSpecificity (resource toolName : Bytes) : ℤ :=
  if resource = toolName then exactMatchSpecificity
  else
    let (literals, wildcards) := countRunes resource.length resource (0, 0)
    literals * resourceSpecificityLiteralWeight - min wildcards maxWildcardTiebreak

/-- The best candidate so far under the one tiebreak of the project. -/
structure ConstraintScorer (α : Type) where
  best : Option α := none
  bestScore : ℤ := noMatchScore
  bestPrin : Bool := false

/-- The more specific wins, then the principal-scoped, then the earlier. -/
def ConstraintScorer.offer {α : Type} (cs : ConstraintScorer α) (candidate : α) (score : ℤ) (hasPrincipal : Bool) :
    ConstraintScorer α :=
  if cs.bestScore < score || (score == cs.bestScore && hasPrincipal && !cs.bestPrin) then
    ⟨some candidate, score, hasPrincipal⟩
  else cs

/-! Selection. -/

/-- The constraint's namespace and pattern take in the request's target. -/
def namesTarget (c : Constraint) : Bool :=
  (splitEnginePrefix c.target).1 == (resolveRequestTarget req).1 &&
    matchesResource (splitEnginePrefix c.target).2 (resolveRequestTarget req).2

def findMatchingCapability (capabilities : List Constraint) :
    Option Constraint :=
  let (reqType, bareToolName) := resolveRequestTarget req
  (capabilities.foldl (fun scorer c =>
    if namesTarget req c && actionPermitted c.actions reqType && c.principalMatches req.claims then
      scorer.offer c (resourceSpecificity (splitEnginePrefix c.target).2 bareToolName *
        resourceScoreWeight) c.hasPrincipal
    else scorer) ({} : ConstraintScorer Constraint)).best

/-- What the manifest declares about a target, whoever calls it and however. -/
def namingTargetConstraint (capabilities : List Constraint) : Constraint where
  target := (resolveRequestTarget req).1 ++ 58 :: (resolveRequestTarget req).2
  actions := []
  enforcement := []
  argumentSchema := none
  principal := []
  effect := none
  conditions := []
  directives := (capabilities.filter (namesTarget req)).flatMap Constraint.directives

/-! The action. -/

def noMatchDenial : DenialInfo where
  code := .authorizationFailed
  conditionType := []
  message := [.text "no matching capability for requested action"]
  blockOverride := false
  details := []

def schemaDenial (err : Message) : DenialInfo where
  code := .invalidParams
  conditionType := lit "argumentSchema"
  message := err
  blockOverride := false
  details := []

/-- A refusal that will be forwarded takes the obligations of the constraint it
is given; one that cannot be discharged refuses in its place. -/
def obligatedDenial (ctx : Context) (forwards auditOnly : Bool) (obliging : Constraint)
    (denial : DenialInfo) : EnforceResponse :=
  if forwards then
    match collectObligations ctx obliging with
    | (_, some deny) => deny
    | (obligations, none) => denyResponse ctx auditOnly obligations denial
  else denyResponse ctx auditOnly [] denial

/-- `ValidateAction`; the context carries the identity it mints. -/
def Engine.validateAction (e : Engine) (ctx : Context) (req : Option EnforceRequest)
    (capabilities : List Constraint) (w : World) : EnforceResponse × World :=
  match req with
  | none => (nilRequestDenial "ValidateAction", w)
  | some req =>
    match findMatchingCapability req capabilities with
    | none =>
      (obligatedDenial ctx (willForwardDeny ctx none) false
        (namingTargetConstraint req capabilities) noMatchDenial, w)
    | some matched =>
      match matched.argumentSchema.elim (.ok ()) fun schema => schema req.arguments with
      | .error err =>
        (obligatedDenial ctx (willForwardDeny ctx (some matched)) matched.isAuditOnly matched
          (schemaDenial err), w)
      | .ok () => e.evaluateMatched ctx req matched w

end Eunox
