/-! The error numbers of `status.h`. Functions return them negated. -/
namespace LiebeOS

def eio : Int := 1
def einvarg : Int := 2
def enomem : Int := 3
def efsnotus : Int := 5
def erdonly : Int := 6
def eistkn : Int := 8
def einformat : Int := 9

end LiebeOS
