import HeapChronicle.Datum

/-!
The kinds of garbage collection that a log reports. Each has a label, which is
written out, and a code.
-/

namespace HeapChronicle

inductive CollectionKind where
  | young
  | full
  | g1Young
  | g1Mixed
  | g1Full
  | zgcCycle
  | shenandoahCycle
  deriving DecidableEq

namespace CollectionKind

def all : List CollectionKind :=
  [young, full, g1Young, g1Mixed, g1Full, zgcCycle, shenandoahCycle]

def label : CollectionKind → List Char
  | young => "Young".toList
  | full => "Full GC".toList
  | g1Young => "G1GC Young".toList
  | g1Mixed => "G1GC Mixed".toList
  | g1Full => "G1GC Full".toList
  | zgcCycle => "ZGC Cycle".toList
  | shenandoahCycle => "Shenandoah Cycle".toList

def code : CollectionKind → List Char
  | young => "YOUNG".toList
  | full => "FULL_GC".toList
  | g1Young => "G1GC_YOUNG".toList
  | g1Mixed => "G1GC_MIXED".toList
  | g1Full => "G1GC_FULL".toList
  | zgcCycle => "ZGC_CYCLE".toList
  | shenandoahCycle => "SHENANDOAH_CYCLE".toList

def ofCode? (cs : List Char) : Option CollectionKind :=
  all.find? fun kind => kind.code == cs

def ofDatum? : Datum → Option CollectionKind
  | .text cs => all.find? fun kind => kind.label == cs
  | _ => none

def unknownMessage (d : Datum) : List Char :=
  d.shown ++ " is not a valid GarbageCollectionType".toList

end CollectionKind
end HeapChronicle
