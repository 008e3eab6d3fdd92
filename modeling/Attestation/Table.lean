namespace Attestation.Table

variable {β : Type}

def insert (k : String) (v : β) : List (String × β) → List (String × β)
  | [] => [(k, v)]
  | (k', v') :: ms =>
    if k < k' then (k, v) :: (k', v') :: ms
    else if k = k' then (k, v) :: ms
    else (k', v') :: insert k v ms

/-- The pairs in ascending order, the last one of each key. -/
def ofList (pairs : List (String × β)) : List (String × β) :=
  pairs.foldl (fun ms m => insert m.1 m.2 ms) []

def find? (pairs : List (String × β)) (k : String) : Option β :=
  (pairs.find? (·.1 = k)).map (·.2)

end Attestation.Table
