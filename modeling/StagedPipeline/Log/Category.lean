import StagedPipeline.Bytes

/-!
# Log categories

A category is a set of the eight subjects that log lines are about, held as a
32-bit mask. The empty set is `NONE`, the full mask is `ALL`.
-/
namespace StagedPipeline.Log

/-- A set of subjects. -/
structure Category where
  mask : UInt32
deriving DecidableEq, Repr, Inhabited

namespace Category

def none : Category := ⟨0⟩
def channel : Category := ⟨1⟩
def producer : Category := ⟨2⟩
def handler : Category := ⟨4⟩
def pipeline : Category := ⟨8⟩
def config : Category := ⟨16⟩
def file : Category := ⟨32⟩
def crypto : Category := ⟨64⟩
def thread : Category := ⟨128⟩
def all : Category := ⟨0xFFFFFFFF⟩

def union (a b : Category) : Category := ⟨a.mask ||| b.mask⟩

def inter (a b : Category) : Category := ⟨a.mask &&& b.mask⟩

def compl (a : Category) : Category := ⟨~~~a.mask⟩

/-- The two sets share a subject. -/
def meets (a b : Category) : Bool := a.mask &&& b.mask != 0

/-- The label of a set: that of its lowest subject, unless the set is empty or full. -/
def name (c : Category) : Bytes :=
  bytes <|
    if c.mask == 0 then "NONE"
    else if c.mask == all.mask then "ALL"
    else match c.mask &&& (~~~c.mask + 1) with
      | 1 => "CHANNEL"
      | 2 => "PRODUCER"
      | 4 => "HANDLER"
      | 8 => "PIPELINE"
      | 16 => "CONFIG"
      | 32 => "IO"
      | 64 => "CRYPTO"
      | 128 => "THREAD"
      | _ => "UNKNOWN"

/-- The words for sets. -/
def words : List (String × Category) :=
  [("channel", channel), ("producer", producer), ("handler", handler), ("pipeline", pipeline),
    ("config", config), ("io", file), ("crypto", crypto), ("thread", thread), ("all", all),
    ("none", none)]

/-- The set that a word names, in any ASCII case. -/
def parse? (s : Bytes) : Option Category :=
  (words.find? fun w => s.sameText (bytes w.1)).map Prod.snd

end Category
end StagedPipeline.Log
