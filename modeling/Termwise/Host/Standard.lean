import Termwise.Host.Services
import Termwise.Host.World

/-! The standard services: elementary functions, a random number, and the constants of a drawing
surface. -/
namespace Termwise.Host.Standard

/-- Failure of a function on a number outside its domain. -/
def domainError : Failure := .ordinary "math domain error"

/-- Failure of a function whose value is too large. -/
def rangeError : Failure := .ordinary "math range error"

def unary (title : String) (f : Float → Except Failure Value) : Routine World := fun args w =>
  match args with
  | [x] => (f x, w)
  | _ =>
    (.error (.ordinary (title ++ "() takes exactly one argument (" ++ toString args.length ++
      " given)")), w)

def binary (title : String) (f : Float → Float → Except Failure Value) : Routine World :=
  fun args w => match args with
  | [x, y] => (f x y, w)
  | _ => (.error (.ordinary (title ++ " expected 2 arguments, got " ++ toString args.length)), w)

/-- A function that is NaN outside its domain. -/
def partly (f : Float → Float) (x : Float) : Except Failure Value :=
  let y := f x
  if y.isNaN && !x.isNaN then .error domainError else .ok (.float y)

/-- A function to the integers, which has no value for NaN and the infinities. -/
def whole (f : Number.Binary → Int) (x : Float) : Except Failure Value :=
  match Number.Binary.ofFloat? x with
  | some b => .ok (.int (f b))
  | none =>
    let shown := if x.isNaN then "NaN" else "infinity"
    .error (.ordinary ("cannot convert float " ++ shown ++ " to integer"))

/-- A power. Zero to a negative power and a fractional power of a negative number have no value. -/
def power (x y : Float) : Except Failure Value :=
  let r := x.pow y
  if x.isFinite && y.isFinite then
    if r.isNaN then .error domainError
    else if r.isInf then .error (if x == 0.0 then domainError else rangeError)
    else .ok (.float r)
  else .ok (.float r)

/-- The nearest integer, a half going to the even neighbour. -/
def rounded : Routine World := fun args w =>
  match args with
  | [x] => (whole Number.Binary.round x, w)
  | [] => (.error (.ordinary "round() missing required argument 'number' (pos 1)"), w)
  | [_, _] => (.error (.ordinary "'float' object cannot be interpreted as an integer"), w)
  | _ =>
    (.error (.ordinary ("round() takes at most 2 arguments (" ++ toString args.length ++
      " given)")), w)

/-- The first number that no later one beats. -/
def best (title : String) (beats : Float → Float → Bool) : Routine World := fun args w =>
  match args with
  | [] => (.error (.ordinary (title ++ " expected at least 1 argument, got 0")), w)
  | [_] => (.error (.ordinary "'float' object is not iterable"), w)
  | first :: rest =>
    (.ok (.float (rest.foldl (fun kept x => if beats x kept then x else kept) first)), w)

/-- A random number between two bounds: zero and one, zero and the argument, or the two
arguments. -/
def random : Routine World := fun args w =>
  let draw (low high : Float) : Except Failure Value × World :=
    let (x, chance) := Chance.between low high w.chance
    (.ok (.float x), { w with chance := chance })
  match args with
  | [] => draw 0.0 1.0
  | [high] => draw 0.0 high
  | [low, high] => draw low high
  | _ =>
    (.error (.ordinary
      ("_register_defaults.<locals>.random() takes from 0 to 2 positional arguments but "
      ++ toString args.length ++ " were given")), w)

/-- The functions in order. -/
def functions : List (String × Routine World) :=
  [("sin", unary "math.sin" (partly Float.sin)),
    ("cos", unary "math.cos" (partly Float.cos)),
    ("tan", unary "math.tan" (partly Float.tan)),
    ("atan2", binary "atan2" fun y x => .ok (.float (Float.atan2 y x))),
    ("sqrt", unary "math.sqrt" (partly Float.sqrt)),
    ("abs", unary "abs" fun x => .ok (.float x.abs)),
    ("pow", binary "pow" power),
    ("floor", unary "math.floor" (whole Number.Binary.floor)),
    ("ceil", unary "math.ceil" (whole Number.Binary.ceil)),
    ("round", rounded),
    ("min", best "min" fun x kept => x < kept),
    ("max", best "max" fun x kept => x > kept),
    ("random", random)]

/-- Names that stand for consecutive codes. -/
def coded (names : List String) : List (String × Value) :=
  names.zipIdx.map fun (name, code) => (name, .int code)

/-- The properties in order. -/
def properties : List (String × Value) :=
  [("PI", .float 3.141592653589793), ("HALF_PI", .float 1.5707963267948966),
    ("QUATER_PI", .float 0.7853981633974483), ("TWO_PI", .float 6.283185307179586),
    ("TAU", .float 6.283185307179586), ("width", .int 480), ("height", .int 480)]
    ++ coded ["POINTS", "LINES", "TRIANGLES", "TRIANGLE_FAN", "TRIANGLE_STRIP", "QUADS",
      "QUAD_STRIP", "CLOSE"]
    ++ coded ["LEFT", "CENTER", "RIGHT"]
    ++ ["mouseX", "mouseY", "pmouseX", "pmouseY", "mouseButton", "mouseIsPressed"].map
      fun name => (name, .int 0)

def services : Services World where
  metadata := [⟨.string "default", .string "1.0.0", .int interfaceVersion⟩]
  functions := functions.map fun (name, run) => (name, .routine run)
  properties := properties.map fun (name, v) => (name, .value v)

end Termwise.Host.Standard
