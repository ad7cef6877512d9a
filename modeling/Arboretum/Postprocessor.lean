import Arboretum.Error
import Arboretum.Model.Basic

/-!
Post-processing: the last function applied to the summed scores of one target of one row. All but
softmax treat every class by itself.
-/

namespace Arboretum

inductive PostprocessorKind where
  | identity
  | signedSquare
  | hinge
  | sigmoid
  | exponential
  | exponentialStandardRatio
  | logarithmOnePlusExp
  | identityMulticlass
  | softmax
  | multiclassOva
  deriving DecidableEq, Repr

namespace PostprocessorKind

def values : List PostprocessorKind :=
  [.identity, .signedSquare, .hinge, .sigmoid, .exponential, .exponentialStandardRatio,
    .logarithmOnePlusExp, .identityMulticlass, .softmax, .multiclassOva]

def name : PostprocessorKind → String
  | identity => "identity"
  | signedSquare => "signed_square"
  | hinge => "hinge"
  | sigmoid => "sigmoid"
  | exponential => "exponential"
  | exponentialStandardRatio => "exponential_standard_ratio"
  | logarithmOnePlusExp => "logarithm_one_plus_exp"
  | identityMulticlass => "identity_multiclass"
  | softmax => "softmax"
  | multiclassOva => "multiclass_ova"

def ofName (text : String) : Result PostprocessorKind :=
  match values.find? fun kind => kind.name == text with
  | some kind => .ok kind
  | none => .error (.format (.unknownPostprocessor text))

def usesSigmoidAlpha : PostprocessorKind → Bool
  | sigmoid | multiclassOva => true
  | _ => false

def usesRatioC : PostprocessorKind → Bool
  | exponentialStandardRatio => true
  | _ => false

end PostprocessorKind

/-- A post-processing function with its parameters. -/
structure Postprocessor where
  kind : PostprocessorKind
  sigmoidAlpha : Single
  ratioC : Single
  deriving DecidableEq, Repr

namespace Postprocessor

variable {α : Type} [Score α]

/-- The largest of some scores; a score that is not a number is passed over unless it is first. -/
def largest (first : α) (rest : List α) : α :=
  rest.foldl (fun best x => if Numeric.less best x then x else best) first

/-- Exponentials of the distances to the largest score, divided by their sum. The sum is kept in
double precision. -/
def softmax : List α → List α
  | [] => []
  | first :: rest =>
    let best := largest first rest
    let powers := (first :: rest).map fun x => Score.exp (Score.sub x best)
    let sum := powers.foldl
      (fun sum x => Score.add sum (Numeric.cast x : Double)) (Numeric.zero : Double)
    powers.map fun x => Score.div x (Numeric.cast sum)

def logistic (alpha x : α) : α :=
  Score.div Score.one (Score.add Score.one (Score.exp (Score.mul (Score.neg alpha) x)))

def apply (p : Postprocessor) (scores : List α) : List α :=
  match p.kind with
  | .identity | .identityMulticlass => scores
  | .signedSquare => scores.map fun x => Score.mul x (Score.abs x)
  | .hinge =>
    scores.map fun x => if Numeric.less Numeric.zero x then Score.one else Numeric.zero
  | .sigmoid | .multiclassOva => scores.map (logistic (Numeric.cast p.sigmoidAlpha))
  | .exponential => scores.map Score.exp
  | .exponentialStandardRatio =>
    scores.map fun x => Score.exp2 (Score.div (Score.neg x) (Numeric.cast p.ratioC))
  | .logarithmOnePlusExp => scores.map fun x => Score.logOnePlus (Score.exp x)
  | .softmax => softmax scores

end Postprocessor

/-- The post-processing function that a model names. -/
def ModelInfo.postprocessing (info : ModelInfo) : Result Postprocessor := do
  let kind ← PostprocessorKind.ofName info.postprocessor
  return ⟨kind, info.sigmoidAlpha, info.ratioC⟩

end Arboretum
