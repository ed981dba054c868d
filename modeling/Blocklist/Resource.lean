import Blocklist.Text.Basic

/-! Resource types: the categories of network requests, and sets of them as twelve bits. The order of the
types is that of their bits and of every list that shows a set. -/

namespace Blocklist

inductive ResourceType where
  | mainFrame
  | subFrame
  | stylesheet
  | script
  | image
  | font
  | object
  | xmlHttpRequest
  | ping
  | media
  | webSocket
  | other
deriving DecidableEq

namespace ResourceType

def all : List ResourceType :=
  [.mainFrame, .subFrame, .stylesheet, .script, .image, .font, .object, .xmlHttpRequest, .ping, .media,
   .webSocket, .other]

/-- Position in `all`. -/
def index : ResourceType → Nat
  | .mainFrame => 0
  | .subFrame => 1
  | .stylesheet => 2
  | .script => 3
  | .image => 4
  | .font => 5
  | .object => 6
  | .xmlHttpRequest => 7
  | .ping => 8
  | .media => 9
  | .webSocket => 10
  | .other => 11

/-- The name the request engine uses. -/
def name : ResourceType → String
  | .mainFrame => "main_frame"
  | .subFrame => "sub_frame"
  | .stylesheet => "stylesheet"
  | .script => "script"
  | .image => "image"
  | .font => "font"
  | .object => "object"
  | .xmlHttpRequest => "xmlhttprequest"
  | .ping => "ping"
  | .media => "media"
  | .webSocket => "websocket"
  | .other => "other"

def ofName? (t : Text) : Option ResourceType := all.find? fun r => r.name.toList == t

/-- The words filter lists use: the engine's names, and two words of their own for frames. -/
def keywords : List (String × ResourceType) :=
  [("subdocument", .subFrame), ("document", .mainFrame)] ++ all.map fun r => (r.name, r)

def ofKeyword? (t : Text) : Option ResourceType :=
  (keywords.find? fun k => k.1.toList == t).map Prod.snd

end ResourceType

/-- A set of resource types; bit `r.index` says whether `r` is a member. -/
structure TypeSet where
  bits : BitVec 12
deriving DecidableEq

namespace TypeSet

def empty : TypeSet := ⟨0⟩

/-- All twelve types. -/
def full : TypeSet := ⟨BitVec.allOnes 12⟩

instance : Inhabited TypeSet := ⟨empty⟩

def single (r : ResourceType) : TypeSet := ⟨BitVec.twoPow 12 r.index⟩

def contains (s : TypeSet) (r : ResourceType) : Bool := s.bits.getLsbD r.index

def isEmpty (s : TypeSet) : Bool := s.bits == 0

def union (s t : TypeSet) : TypeSet := ⟨s.bits ||| t.bits⟩

def diff (s t : TypeSet) : TypeSet := ⟨s.bits &&& ~~~t.bits⟩

def insert (s : TypeSet) (r : ResourceType) : TypeSet := s.union (single r)

def erase (s : TypeSet) (r : ResourceType) : TypeSet := s.diff (single r)

/-- Every member of `t` is one of `s`. -/
def includes (s t : TypeSet) : Bool := s.bits &&& t.bits == t.bits

def ofList (rs : List ResourceType) : TypeSet := rs.foldl insert empty

/-- The members, in the order of `ResourceType.all`. -/
def toList (s : TypeSet) : List ResourceType := ResourceType.all.filter s.contains

def size (s : TypeSet) : Nat := s.toList.length

end TypeSet

end Blocklist
