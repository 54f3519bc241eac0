/-
Canvas records: nodes with their connection handles, edges between node
endpoints, and shapes.  `BEq` instances follow the derived equality of the
source, for which a NaN coordinate differs from itself and the members of a JSON
object are compared regardless of their order.
-/
import OpenGpui.Library.IndexMap
import Mathlib.Data.Rat.Defs

namespace OpenGpui.Canvas

/-- A number in a JSON value; these are always finite. -/
inductive JsonNumber where
  | posInt (value : Nat)
  | negInt (value : Int)
  | float (value : ℚ)
deriving DecidableEq

/-- A JSON value below the top level of a record's data. -/
inductive JsonValue where
  | null
  | bool (value : Bool)
  | number (value : JsonNumber)
  | string (value : String)
  | array (items : List JsonValue)
  | object (members : List (String × JsonValue))

namespace JsonValue

/-- The value of a member of an object. -/
def member (key : String) (members : List (String × JsonValue)) : Option JsonValue :=
  (members.find? fun entry => entry.1 == key).map (·.2)

mutual

@[grind =] def beq : JsonValue → JsonValue → Bool
  | .null, .null => true
  | .bool left, .bool right => left == right
  | .number left, .number right => left == right
  | .string left, .string right => left == right
  | .array left, .array right => beqItems left right
  | .object left, .object right =>
    left.length == right.length && beqMembers left right && coversMembers left right
  | _, _ => false
termination_by structural left => left

@[grind =] def beqItems : List JsonValue → List JsonValue → Bool
  | [], [] => true
  | left :: lefts, right :: rights => beq left right && beqItems lefts rights
  | _, _ => false
termination_by structural lefts => lefts

/-- Each member on the left has an equal one on the right. -/
def beqMembers : List (String × JsonValue) → List (String × JsonValue) → Bool
  | [], _ => true
  | (key, left) :: lefts, rights =>
    (member key rights).any (beq left) && beqMembers lefts rights
termination_by structural lefts => lefts

/-- Each member on the right has an equal one on the left.  For distinct names this
follows from the other direction. -/
def coversMembers : List (String × JsonValue) → List (String × JsonValue) → Bool
  | [], rights => rights.isEmpty
  | (key, left) :: lefts, rights =>
    (rights.all fun entry => entry.1 != key || beq left entry.2) &&
      coversMembers lefts (rights.filter fun entry => entry.1 != key)
termination_by structural lefts => lefts

end

instance : BEq JsonValue := ⟨beq⟩

end JsonValue

/-- The data of a record: the members of its top-level JSON object. -/
abbrev CanvasValue := IndexMap String JsonValue

/-- A 32-bit float as the canvas uses it. -/
inductive Pixels where
  | finite (value : ℚ)
  | infinite (negative : Bool)
  | nan

namespace Pixels

def isFinite : Pixels → Bool
  | finite _ => true
  | _ => false

def beq : Pixels → Pixels → Bool
  | finite left, finite right => left == right
  | infinite left, infinite right => left == right
  | _, _ => false

instance : BEq Pixels := ⟨beq⟩

/-- `self < Pixels::ZERO`. -/
def isNegative : Pixels → Bool
  | finite value => decide (value < 0)
  | infinite negative => negative
  | nan => false

end Pixels

structure Point where
  x : Pixels
  y : Pixels
deriving BEq

structure Size where
  width : Pixels
  height : Pixels
deriving BEq

structure Bounds where
  origin : Point
  size : Size
deriving BEq

abbrev NodeId := String
abbrev EdgeId := String
abbrev ShapeId := String
abbrev HandleId := String
abbrev BindingId := String
abbrev CanvasEdgeRouteKind := String

inductive CanvasRecordId where
  | node (id : NodeId)
  | edge (id : EdgeId)
  | shape (id : ShapeId)
deriving DecidableEq

inductive HandleRole where
  | any
  | source
  | target
deriving DecidableEq

structure CanvasStyle where
  fill : Option String
  stroke : Option String
  strokeWidth : Pixels
deriving BEq

def CanvasStyle.default : CanvasStyle := ⟨none, none, .finite 0⟩

structure CanvasHandle where
  id : HandleId
  role : HandleRole
  position : Point
  size : Size
  connectable : Bool
  hidden : Bool
deriving BEq

structure CanvasNode where
  id : NodeId
  kind : String
  position : Point
  size : Size
  zIndex : Int32
  hidden : Bool
  locked : Bool
  handles : List CanvasHandle
  data : CanvasValue
  style : CanvasStyle
deriving BEq

structure CanvasEndpoint where
  nodeId : NodeId
  handleId : Option HandleId
deriving DecidableEq

structure CanvasEdgeRoute where
  kind : CanvasEdgeRouteKind
  waypoints : List Point
  controlPoints : List Point
  interactionWidth : Pixels
  options : CanvasValue
deriving BEq

structure CanvasEdge where
  id : EdgeId
  kind : String
  source : CanvasEndpoint
  target : CanvasEndpoint
  zIndex : Int32
  hidden : Bool
  locked : Bool
  data : CanvasValue
  style : CanvasStyle
  route : CanvasEdgeRoute
deriving BEq

structure CanvasShape where
  id : ShapeId
  kind : String
  bounds : Bounds
  zIndex : Int32
  hidden : Bool
  locked : Bool
  data : CanvasValue
  style : CanvasStyle
deriving BEq

/-- `default_kind`. -/
def defaultKind : String := "default"

/-- `default_handle_size`. -/
def defaultHandleSize : Size := ⟨.finite 12, .finite 12⟩

/-- `default_edge_interaction_width`. -/
def defaultEdgeInteractionWidth : Pixels := .finite 12

def CanvasEdgeRouteKind.STRAIGHT : CanvasEdgeRouteKind := "straight"

def CanvasHandle.new (id : HandleId) (position : Point) : CanvasHandle :=
  ⟨id, .any, position, defaultHandleSize, true, false⟩

def CanvasNode.new (id : NodeId) (position : Point) (size : Size) : CanvasNode :=
  ⟨id, defaultKind, position, size, 0, false, false, [], .empty, .default⟩

/-- The named handle, or the first one when no handle is named. -/
def CanvasNode.handle (node : CanvasNode) : Option HandleId → Option CanvasHandle
  | some id => node.handles.find? fun handle => handle.id == id
  | none => node.handles.head?

def CanvasEdgeRoute.default : CanvasEdgeRoute :=
  ⟨.STRAIGHT, [], [], defaultEdgeInteractionWidth, .empty⟩

def CanvasEdge.new (id : EdgeId) (source target : CanvasEndpoint) : CanvasEdge :=
  ⟨id, defaultKind, source, target, 0, false, false, .empty, .default, .default⟩

def CanvasShape.new (id : ShapeId) (bounds : Bounds) : CanvasShape :=
  ⟨id, defaultKind, bounds, 0, false, false, .empty, .default⟩

end OpenGpui.Canvas
